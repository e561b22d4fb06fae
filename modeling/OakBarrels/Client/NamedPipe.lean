import OakBarrels.Lib.Nearing
import OakBarrels.Lib.Octets

/-!
# The client's named pipe

Two isolates and one handle. A worker asks the pipe what is waiting, reads it and posts it; the main
isolate puts what is posted into the stream of the client, writes to the same handle, and closes it.
-/

open Octets

namespace OakBarrels.Client

def chunkBytes : Nat := 64 * 1024

/-- Where the worker is in `_readLoop`; `exiting` is an isolate that has come to its end or was killed,
and `gone` one whose end the main isolate was told of. -/
inductive ReadLoop
  | asking
  | reading (wanted : Nat)
  | posting (received : Bytes)
  | leaving
  | exiting
  | gone
deriving DecidableEq

/-- What the worker has read and not posted. -/
def ReadLoop.holds : ReadLoop → Bytes
  | .posting received => received
  | _ => []

/-- The worker is in the loop, or on its way out of it. -/
def ReadLoop.Running : ReadLoop → Prop
  | .asking => True
  | .reading _ => True
  | .posting _ => True
  | .leaving => True
  | .exiting => False
  | .gone => False

/-- How far the stream is from its end, once the worker is out of the loop. -/
def ReadLoop.left : ReadLoop → Nat
  | .leaving => 4
  | .exiting => 2
  | _ => 0

/-- The worker is out of the loop. -/
def ReadLoop.Out : ReadLoop → Prop
  | .leaving => True
  | .exiting => True
  | .gone => True
  | _ => False

/-- No chunk is larger than the worker's buffer, and none is empty. -/
def Sized (bytes : Bytes) : Prop := bytes ≠ [] ∧ bytes.length ≤ chunkBytes

/-- What the worker is about to read and has read is that large. -/
def ReadLoop.Sized : ReadLoop → Prop
  | .reading wanted => wanted ≤ chunkBytes
  | .posting received => Client.Sized received
  | _ => True

/-- What an isolate posts to another comes in the order in which it was posted, its end last. -/
inductive Message
  | chunk (bytes : Bytes)
  | null
  | exit
deriving DecidableEq

/-- What the main isolate does with the handle. -/
inductive HandleCall
  | writeFile (bytes : Bytes) (ok : Bool)
  | closeHandle
deriving DecidableEq

/-- `isClosed` is the stream controller's and `closed` the transport's. The last six are not the
code's: what the controller was given, whether it was given something when it was closed, what the
worker has read, what a kill took from it, what `send` was called with, and the main isolate's calls. -/
structure NamedPipeTransport where
  worker : ReadLoop
  killed : Bool
  posted : List Message
  isClosed : Bool
  closed : Bool
  events : List Bytes
  thrown : Bool
  read : Bytes
  lost : Bytes
  offered : List Bytes
  calls : List HandleCall

namespace NamedPipeTransport

/-- After `connect`. -/
def connected : NamedPipeTransport :=
  ⟨.asking, false, [], false, false, [], false, [], [], [], []⟩

inductive Action
  | peekNamedPipe (waiting : Option UInt32)
  | readFile (received : Option Bytes)
  | post
  | leave
  | die
  | exit
  | deliver
  | send (bytes : Bytes) (ok : Bool)
  | close

/-- The listeners of the two ports. -/
def listen (s : NamedPipeTransport) : Message → NamedPipeTransport
  | .chunk bytes =>
    if s.isClosed then { s with thrown := true } else { s with events := s.events ++ [bytes] }
  | .null => { s with isClosed := true }
  | .exit => { s with isClosed := true }

/-- No step where the isolate is elsewhere. A kill takes effect between any two steps of the worker. -/
def step (s : NamedPipeTransport) : Action → Option NamedPipeTransport
  | .peekNamedPipe waiting =>
    match s.worker with
    | .asking =>
      match waiting with
      | none => some { s with worker := .leaving }
      | some waiting =>
        if waiting = 0 then some s
        else some { s with worker := .reading (min waiting.toNat chunkBytes) }
    | _ => none
  | .readFile received =>
    match s.worker with
    | .reading wanted =>
      match received with
      | none => some { s with worker := .leaving }
      | some received =>
        if wanted < received.length then none
        else if received = [] then some { s with worker := .leaving }
        else some { s with worker := .posting received, read := s.read ++ received }
    | _ => none
  | .post =>
    match s.worker with
    | .posting received =>
      some { s with worker := .asking, posted := s.posted ++ [.chunk received] }
    | _ => none
  | .leave =>
    match s.worker with
    | .leaving => some { s with worker := .exiting, posted := s.posted ++ [.null] }
    | _ => none
  | .die =>
    match s.killed, s.worker with
    | true, .asking => some { s with worker := .exiting }
    | true, .reading _ => some { s with worker := .exiting }
    | true, .posting received => some { s with worker := .exiting, lost := received }
    | true, .leaving => some { s with worker := .exiting }
    | _, _ => none
  | .exit =>
    match s.worker with
    | .exiting => some { s with worker := .gone, posted := s.posted ++ [.exit] }
    | _ => none
  | .deliver =>
    match s.posted with
    | [] => none
    | message :: rest => some ({ s with posted := rest }.listen message)
  | .send bytes ok =>
    let s' := { s with offered := s.offered ++ [bytes] }
    if s.closed ∨ bytes = [] then some s'
    else some { s' with calls := s.calls ++ [.writeFile bytes ok], closed := !ok }
  | .close =>
    if s.closed then some s
    else some { s with closed := true, killed := true, calls := s.calls ++ [.closeHandle] }

/-! ## What the client receives -/

/-- What is posted: chunks, and after them nothing but ends. -/
structure Inv (s : NamedPipeTransport) (chunks : List Bytes) (ends : List Message) : Prop where
  posted : s.posted = chunks.map .chunk ++ ends
  endings : ∀ m ∈ ends, m = .null ∨ m = .exit
  running : s.worker.Running → s.isClosed = false ∧ ends = [] ∧ s.lost = []
  delivered : s.isClosed = true → chunks = []
  gone : s.worker = .gone → s.isClosed = true ∨ ends ≠ []
  read : s.read = s.events.flatten ++ chunks.flatten ++ s.worker.holds ++ s.lost
  lost : s.killed = false → s.lost = []
  sized : ∀ bytes ∈ s.events ++ chunks, Sized bytes
  worker : s.worker.Sized
  thrown : s.thrown = false

def Reached (s : NamedPipeTransport) : Prop := ∃ chunks ends, Inv s chunks ends

section

variable {s t : NamedPipeTransport} {chunks : List Bytes} {ends : List Message} {action : Action}

theorem connected_reached : Reached connected :=
  ⟨[], [], rfl, by simp, fun _ => ⟨rfl, rfl, rfl⟩, fun _ => rfl, (fun hgone => by cases hgone), rfl, fun _ => rfl,
    by simp [connected], trivial, rfl⟩

/-- A worker that holds nothing goes on, or leaves the loop. -/
theorem Inv.moves (h : Inv s chunks ends) (hrunning : s.worker.Running) (hholds : s.worker.holds = [])
    {worker : ReadLoop} (hworker : worker.holds = []) (hsized : worker.Sized)
    (hgone : worker ≠ .gone) : Inv { s with worker } chunks ends := by
  have hread := h.read
  rw [hholds] at hread
  refine ⟨h.posted, h.endings, fun _ => h.running hrunning, h.delivered, fun hend => absurd hend hgone, ?_,
    h.lost, h.sized, hsized, h.thrown⟩
  simp only [hworker]
  exact hread

theorem listen_chunk (s : NamedPipeTransport) (hopen : s.isClosed = false) (bytes : Bytes) :
    s.listen (.chunk bytes) = { s with events := s.events ++ [bytes] } := by
  unfold listen
  exact if_neg (by simp [hopen])

theorem Inv.deliver (h : Inv s chunks ends) {message : Message} {rest : List Message}
    (hposted : s.posted = message :: rest) :
    Reached ({ s with posted := rest }.listen message) := by
  have hsplit := h.posted
  rw [hposted] at hsplit
  cases chunks with
  | cons bytes chunks =>
    obtain ⟨rfl, hrest⟩ := List.cons.inj hsplit
    have hopen : s.isClosed = false := by
      by_contra hclosed
      rw [Bool.not_eq_false] at hclosed
      exact absurd (h.delivered hclosed) (by simp)
    have hlisten : { s with posted := rest }.listen (.chunk bytes)
        = { s with posted := rest, events := s.events ++ [bytes] } := listen_chunk { s with posted := rest } hopen bytes
    rw [hlisten]
    refine ⟨chunks, ends, hrest, h.endings, h.running, fun hclosed => ?_, h.gone, ?_, h.lost, ?_,
      h.worker, h.thrown⟩
    · exact absurd (hopen.symm.trans hclosed) (by simp)
    · rw [h.read]
      simp
    · have hsized := h.sized
      simpa [or_assoc] using hsized
  | nil =>
    have hstop : ¬ s.worker.Running := by
      intro hrunning
      rw [(h.running hrunning).2.1] at hsplit
      cases hsplit
    have hend : ∃ ends', ends = message :: ends' ∧ rest = ends' := by
      cases ends with
      | nil => cases hsplit
      | cons m ends' =>
        obtain ⟨rfl, rfl⟩ := List.cons.inj hsplit
        exact ⟨_, rfl, rfl⟩
    obtain ⟨ends', rfl, rfl⟩ := hend
    have hclosed : { s with posted := rest }.listen message
        = { s with posted := rest, isClosed := true } := by
      rcases h.endings message List.mem_cons_self with rfl | rfl
      · rfl
      · rfl
    rw [hclosed]
    exact ⟨[], rest, rfl, fun m hm => h.endings m (List.mem_cons_of_mem _ hm),
      fun hrunning => absurd hrunning hstop, fun _ => rfl, fun _ => .inl rfl, h.read, h.lost, h.sized,
      h.worker, h.thrown⟩

/-- A kill takes what the worker has read and not posted, and leaves the rest as it is. -/
theorem Inv.die (h : Inv s chunks ends) (hs : s.step .die = some t) : Reached t := by
  have hkill : s.killed = true ∧ s.worker.Running ∧
      t = { s with worker := .exiting, lost := s.worker.holds ++ s.lost } := by
    have hlost : s.worker.Running → s.lost = [] := fun hrunning => (h.running hrunning).2.2
    simp only [NamedPipeTransport.step] at hs
    cases hkilled : s.killed with
    | false =>
      rw [hkilled] at hs
      cases hs
    | true =>
      rw [hkilled] at hs
      cases hworker : s.worker with
      | exiting | gone =>
        rw [hworker] at hs
        cases hs
      | asking | reading | leaving | posting =>
        rw [hworker] at hs hlost
        cases hs
        refine ⟨rfl, trivial, ?_⟩
        rw [hlost trivial]
        simp [ReadLoop.holds]
  obtain ⟨hkilled, hrunning, rfl⟩ := hkill
  refine ⟨chunks, ends, h.posted, h.endings, fun hrunning => hrunning.elim, h.delivered,
    (fun hgone => by cases hgone), ?_, fun hnot => ?_, h.sized, trivial, h.thrown⟩
  · rw [h.read]
    simp [ReadLoop.holds]
  · exact absurd (hkilled.symm.trans hnot) (by simp)

theorem Inv.step (h : Inv s chunks ends) (hs : s.step action = some t) : Reached t := by
  cases action with
  | peekNamedPipe waiting =>
    simp only [NamedPipeTransport.step] at hs
    split at hs
    · rename_i hasking
      have hrunning : s.worker.Running := by rw [hasking]; trivial
      have hholds : s.worker.holds = [] := by rw [hasking]; rfl
      split at hs
      · cases hs
        exact ⟨chunks, ends, h.moves hrunning hholds rfl trivial (by simp)⟩
      · split at hs
        · cases hs
          exact ⟨chunks, ends, h⟩
        · cases hs
          exact ⟨chunks, ends, h.moves hrunning hholds rfl (Nat.min_le_right _ _) (by simp)⟩
    · cases hs
  | readFile received =>
    simp only [NamedPipeTransport.step] at hs
    split at hs
    · rename_i wanted hreading
      have hrunning : s.worker.Running := by rw [hreading]; trivial
      have hholds : s.worker.holds = [] := by rw [hreading]; rfl
      have hwanted := h.worker
      rw [hreading] at hwanted
      split at hs
      · cases hs
        exact ⟨chunks, ends, h.moves hrunning hholds rfl trivial (by simp)⟩
      · rename_i received
        split at hs
        · cases hs
        · rename_i hfits
          split at hs
          · cases hs
            exact ⟨chunks, ends, h.moves hrunning hholds rfl trivial (by simp)⟩
          · rename_i hsome
            cases hs
            obtain ⟨hopen, hends, hlost⟩ := h.running hrunning
            refine ⟨chunks, ends, h.posted, h.endings, fun _ => ⟨hopen, hends, hlost⟩, h.delivered,
              (fun hgone => by cases hgone), ?_, h.lost, h.sized, ⟨hsome, ?_⟩, h.thrown⟩
            · have hread := h.read
              rw [hholds, hlost] at hread
              simp only [hread, hlost, ReadLoop.holds, List.append_nil]
            · exact (not_lt.mp hfits).trans hwanted
    · cases hs
  | post =>
    simp only [NamedPipeTransport.step] at hs
    split at hs
    · rename_i received hposting
      have hrunning : s.worker.Running := by rw [hposting]; trivial
      obtain ⟨hopen, hends, hlost⟩ := h.running hrunning
      have hread := h.read
      have hsized := h.worker
      rw [hposting, hlost] at hread
      rw [hposting] at hsized
      cases hs
      refine ⟨chunks ++ [received], ends, ?_, h.endings, fun _ => ⟨hopen, hends, hlost⟩,
        fun hclosed => ?_, (fun hgone => by cases hgone), ?_, h.lost, ?_, trivial, h.thrown⟩
      · simp [h.posted, hends]
      · exact absurd (hclosed.symm.trans hopen) (by simp)
      · simp only [hread, hlost, ReadLoop.holds]
        simp
      · intro bytes hbytes
        rw [← List.append_assoc, List.mem_append, List.mem_singleton] at hbytes
        rcases hbytes with hbytes | rfl
        · exact h.sized bytes hbytes
        · exact hsized
    · cases hs
  | leave =>
    simp only [NamedPipeTransport.step] at hs
    split at hs
    · rename_i hleaving
      have hread := h.read
      rw [hleaving] at hread
      cases hs
      refine ⟨chunks, ends ++ [.null], ?_, ?_, fun hrunning => hrunning.elim, h.delivered,
        (fun hgone => by cases hgone), hread, h.lost, h.sized, trivial, h.thrown⟩
      · simp [h.posted]
      · intro m hm
        rcases List.mem_append.mp hm with hm | hm
        · exact h.endings m hm
        · exact .inl (List.mem_singleton.mp hm)
    · cases hs
  | die => exact h.die hs
  | exit =>
    simp only [NamedPipeTransport.step] at hs
    split at hs
    · rename_i hexiting
      have hread := h.read
      rw [hexiting] at hread
      cases hs
      refine ⟨chunks, ends ++ [.exit], ?_, ?_, fun hrunning => hrunning.elim, h.delivered,
        fun _ => .inr (by simp), hread, h.lost, h.sized, trivial, h.thrown⟩
      · simp [h.posted]
      · intro m hm
        rcases List.mem_append.mp hm with hm | hm
        · exact h.endings m hm
        · exact .inr (List.mem_singleton.mp hm)
    · cases hs
  | deliver =>
    simp only [NamedPipeTransport.step] at hs
    split at hs
    · cases hs
    · rename_i hposted
      cases hs
      exact h.deliver hposted
  | send bytes ok =>
    simp only [NamedPipeTransport.step] at hs
    split at hs
    · cases hs
      exact ⟨chunks, ends, h.posted, h.endings, h.running, h.delivered, h.gone, h.read, h.lost, h.sized,
        h.worker, h.thrown⟩
    · cases hs
      exact ⟨chunks, ends, h.posted, h.endings, h.running, h.delivered, h.gone, h.read, h.lost, h.sized,
        h.worker, h.thrown⟩
  | close =>
    simp only [NamedPipeTransport.step] at hs
    split at hs
    · cases hs
      exact ⟨chunks, ends, h⟩
    · cases hs
      exact ⟨chunks, ends, h.posted, h.endings, h.running, h.delivered, h.gone, h.read,
        (fun hkilled => by cases hkilled), h.sized, h.worker, h.thrown⟩

theorem Reached.step (h : Reached s) (hs : s.step action = some t) : Reached t := by
  obtain ⟨chunks, ends, hinv⟩ := h
  exact hinv.step hs

/-! ## The stream comes to its end -/

/-- The steps that bring the end of the stream: the worker's last ones, and the handling of what it has
posted. -/
def Action.closes : Action → Bool
  | .leave => true
  | .exit => true
  | .deliver => true
  | _ => false

theorem listen_deliver {message : Message} {rest : List Message} (hposted : s.posted = message :: rest) :
    ({ s with posted := rest }.listen message).worker = s.worker ∧
      ({ s with posted := rest }.listen message).posted.length + 1 = s.posted.length ∧
      (s.isClosed = true → ({ s with posted := rest }.listen message).isClosed = true) := by
  rw [hposted]
  unfold listen
  split
  · split
    · exact ⟨rfl, rfl, id⟩
    · exact ⟨rfl, rfl, id⟩
  · exact ⟨rfl, rfl, fun _ => rfl⟩
  · exact ⟨rfl, rfl, fun _ => rfl⟩

/-- Out of the loop a worker posts what it has still to post, and no more. -/
structure Closing (s t : NamedPipeTransport) (mine : Bool) : Prop where
  out : t.worker.Out
  closed : s.isClosed = true → t.isClosed = true
  left : t.posted.length + t.worker.left + mine.toNat ≤ s.posted.length + s.worker.left

theorem step_closing (hout : s.worker.Out) (hs : s.step action = some t) :
    Closing s t action.closes := by
  cases action with
  | peekNamedPipe waiting =>
    simp only [NamedPipeTransport.step] at hs
    split at hs
    · rename_i hasking
      rw [hasking] at hout
      exact hout.elim
    · cases hs
  | readFile received =>
    simp only [NamedPipeTransport.step] at hs
    split at hs
    · rename_i wanted hreading
      rw [hreading] at hout
      exact hout.elim
    · cases hs
  | post =>
    simp only [NamedPipeTransport.step] at hs
    split at hs
    · rename_i received hposting
      rw [hposting] at hout
      exact hout.elim
    · cases hs
  | leave =>
    simp only [NamedPipeTransport.step] at hs
    split at hs
    · rename_i hleaving
      cases hs
      refine ⟨trivial, id, ?_⟩
      rw [hleaving]
      simp [ReadLoop.left, Action.closes]
    · cases hs
  | die =>
    simp only [NamedPipeTransport.step] at hs
    split at hs
    · cases hs
      exact ⟨trivial, id, by simp_all [ReadLoop.Out]⟩
    · cases hs
      exact ⟨trivial, id, by simp_all [ReadLoop.Out]⟩
    · cases hs
      exact ⟨trivial, id, by simp_all [ReadLoop.Out]⟩
    · rename_i hleaving
      cases hs
      refine ⟨trivial, id, ?_⟩
      rw [hleaving]
      simp [ReadLoop.left, Action.closes]
    · cases hs
  | exit =>
    simp only [NamedPipeTransport.step] at hs
    split at hs
    · rename_i hexiting
      cases hs
      refine ⟨trivial, id, ?_⟩
      rw [hexiting]
      simp [ReadLoop.left, Action.closes]
    · cases hs
  | deliver =>
    simp only [NamedPipeTransport.step] at hs
    split at hs
    · cases hs
    · rename_i hposted
      cases hs
      obtain ⟨hworker, hlength, hclosed⟩ := listen_deliver hposted
      refine ⟨by rw [hworker]; exact hout, hclosed, ?_⟩
      rw [hworker]
      simp only [Action.closes, Bool.toNat_true]
      omega
  | send bytes ok =>
    simp only [NamedPipeTransport.step] at hs
    split at hs
    · cases hs
      exact ⟨hout, id, le_rfl⟩
    · cases hs
      exact ⟨hout, id, le_rfl⟩
  | close =>
    simp only [NamedPipeTransport.step] at hs
    split at hs
    · cases hs
      exact ⟨hout, id, le_rfl⟩
    · cases hs
      exact ⟨hout, id, le_rfl⟩

theorem closing_nears : Runs.Nears NamedPipeTransport.step
    (fun s => Reached s ∧ s.worker.Out) (fun s => s.isClosed = true) Action.closes
    (fun s => s.posted.length + s.worker.left) where
  inv _ _ _ h hs := ⟨h.1.step hs, (step_closing h.2 hs).out⟩
  stays _ _ _ h hclosed hs := (step_closing h.2 hs).closed hclosed
  nears _ _ _ h _ hs _ := (step_closing h.2 hs).left
  away s h hopen := by
    obtain ⟨⟨chunks, ends, hinv⟩, hout⟩ := h
    cases hworker : s.worker with
    | asking | reading | posting =>
      rw [hworker] at hout
      exact hout.elim
    | leaving | exiting => simp only [ReadLoop.left]; omega
    | gone =>
      have hends := (hinv.gone hworker).resolve_left hopen
      have hlength := List.length_pos_of_ne_nil hends
      rw [hinv.posted, List.length_append]
      omega

/-! ## What is done with the handle -/

/-- The bytes that `send` was called with, where there were any. -/
def said (s : NamedPipeTransport) : List Bytes := s.offered.filter (· ≠ [])

/-- What the main isolate has done with the handle: it has written all that it was given; or a write
has failed, and it has left the handle alone since; or it has closed it. -/
inductive Handled (s : NamedPipeTransport) : Prop
  | writing : s.closed = false → s.killed = false → s.calls = s.said.map (.writeFile · true) → Handled s
  | broken (sent : List Bytes) (last : Bytes) : s.closed = true → s.killed = false →
      sent ++ [last] <+: s.said → s.calls = sent.map (.writeFile · true) ++ [.writeFile last false] →
      Handled s
  | closed (sent : List Bytes) : s.closed = true → s.killed = true → sent <+: s.said →
      s.calls = sent.map (.writeFile · true) ++ [.closeHandle] → Handled s

/-- A step that leaves the handle alone, with more or nothing more given to it. -/
theorem Handled.kept (h : Handled s) (hclosed : t.closed = s.closed) (hkilled : t.killed = s.killed)
    (hcalls : t.calls = s.calls) (hsaid : s.said <+: t.said) (hsame : s.closed = false → t.said = s.said) :
    Handled t := by
  cases h with
  | writing hopen hlive hwrites =>
    exact .writing (hclosed.trans hopen) (hkilled.trans hlive)
      (hcalls.trans (hwrites.trans (by rw [hsame hopen])))
  | broken sent last hshut hlive hsent hwrites =>
    exact .broken sent last (hclosed.trans hshut) (hkilled.trans hlive) (hsent.trans hsaid)
      (hcalls.trans hwrites)
  | closed sent hshut hdead hsent hwrites =>
    exact .closed sent (hclosed.trans hshut) (hkilled.trans hdead) (hsent.trans hsaid)
      (hcalls.trans hwrites)

/-- What the worker does and what is delivered has nothing to do with it. -/
theorem step_handle (hs : s.step action = some t) (hsend : ∀ bytes ok, action ≠ .send bytes ok)
    (hclose : action ≠ .close) : t.closed = s.closed ∧ t.killed = s.killed ∧ t.calls = s.calls ∧
      t.offered = s.offered := by
  have hlisten : ∀ (s : NamedPipeTransport) (message : Message),
      (s.listen message).closed = s.closed ∧ (s.listen message).killed = s.killed ∧
        (s.listen message).calls = s.calls ∧ (s.listen message).offered = s.offered := by
    intro s message
    unfold listen
    split
    · split
      · exact ⟨rfl, rfl, rfl, rfl⟩
      · exact ⟨rfl, rfl, rfl, rfl⟩
    · exact ⟨rfl, rfl, rfl, rfl⟩
    · exact ⟨rfl, rfl, rfl, rfl⟩
  cases action with
  | send bytes ok => exact absurd rfl (hsend bytes ok)
  | close => exact absurd rfl hclose
  | deliver =>
    simp only [NamedPipeTransport.step] at hs
    split at hs
    · cases hs
    · cases hs
      exact hlisten _ _
  | peekNamedPipe waiting =>
    simp only [NamedPipeTransport.step] at hs
    split at hs
    · split at hs
      · cases hs
        exact ⟨rfl, rfl, rfl, rfl⟩
      · split at hs
        · cases hs
          exact ⟨rfl, rfl, rfl, rfl⟩
        · cases hs
          exact ⟨rfl, rfl, rfl, rfl⟩
    · cases hs
  | readFile received =>
    simp only [NamedPipeTransport.step] at hs
    split at hs
    · split at hs
      · cases hs
        exact ⟨rfl, rfl, rfl, rfl⟩
      · split at hs
        · cases hs
        · split at hs
          · cases hs
            exact ⟨rfl, rfl, rfl, rfl⟩
          · cases hs
            exact ⟨rfl, rfl, rfl, rfl⟩
    · cases hs
  | post | leave | exit =>
    simp only [NamedPipeTransport.step] at hs
    split at hs
    · cases hs
      exact ⟨rfl, rfl, rfl, rfl⟩
    · cases hs
  | die =>
    simp only [NamedPipeTransport.step] at hs
    split at hs
    · cases hs
      exact ⟨rfl, rfl, rfl, rfl⟩
    · cases hs
      exact ⟨rfl, rfl, rfl, rfl⟩
    · cases hs
      exact ⟨rfl, rfl, rfl, rfl⟩
    · cases hs
      exact ⟨rfl, rfl, rfl, rfl⟩
    · cases hs

theorem said_concat {bytes : Bytes} (hoffered : t.offered = s.offered ++ [bytes]) :
    t.said = s.said ++ if bytes = [] then [] else [bytes] := by
  unfold said
  rw [hoffered, List.filter_append]
  split
  · rename_i hnone
    simp [hnone]
  · rename_i hsome
    simp [hsome]

/-- A transport that was closed, or broken, is left alone. -/
theorem Handled.shut (h : Handled s) {bytes : Bytes} (hshut : s.closed = true)
    (hoffered : t.offered = s.offered ++ [bytes]) (hclosed : t.closed = s.closed)
    (hkilled : t.killed = s.killed) (hcalls : t.calls = s.calls) : Handled t := by
  refine h.kept hclosed hkilled hcalls ?_ fun hopen => ?_
  · rw [said_concat hoffered]
    exact List.prefix_append _ _
  · rw [hshut] at hopen
    cases hopen

theorem Handled.open_calls (h : Handled s) (hopen : s.closed = false) :
    s.killed = false ∧ s.calls = s.said.map (.writeFile · true) := by
  cases h with
  | writing _ hlive hwrites => exact ⟨hlive, hwrites⟩
  | broken _ _ hshut | closed _ hshut =>
    rw [hopen] at hshut
    cases hshut

theorem Handled.step (h : Handled s) (hs : s.step action = some t) : Handled t := by
  by_cases hother : (∀ bytes ok, action ≠ .send bytes ok) ∧ action ≠ .close
  · obtain ⟨hclosed, hkilled, hcalls, hoffered⟩ := step_handle hs hother.1 hother.2
    have hsaid : t.said = s.said := by
      unfold said
      rw [hoffered]
    exact h.kept hclosed hkilled hcalls (hsaid ▸ List.prefix_rfl) fun _ => hsaid
  · cases action with
    | send bytes ok =>
      simp only [NamedPipeTransport.step] at hs
      cases hclosed : s.closed with
      | true =>
        rw [if_pos (.inl hclosed)] at hs
        cases hs
        exact h.shut hclosed rfl rfl rfl rfl
      | false =>
        obtain ⟨hlive, hcalls⟩ := h.open_calls hclosed
        by_cases hnone : bytes = []
        · rw [if_pos (.inr hnone)] at hs
          cases hs
          refine .writing hclosed hlive (hcalls.trans ?_)
          rw [@said_concat s { s with offered := s.offered ++ [bytes] } bytes rfl, if_pos hnone,
            List.append_nil]
        · rw [if_neg (by simp [hclosed, hnone])] at hs
          cases hs
          have hsaid : s.said ++ [bytes] =
              (said { s with offered := s.offered ++ [bytes] }) := by
            rw [@said_concat s { s with offered := s.offered ++ [bytes] } bytes rfl, if_neg hnone]
          cases ok with
          | true =>
            refine .writing rfl hlive ?_
            change _ = (said { s with offered := s.offered ++ [bytes] }).map _
            rw [← hsaid, List.map_append, ← hcalls]
            rfl
          | false => exact .broken s.said bytes rfl hlive (hsaid ▸ List.prefix_rfl) (by rw [← hcalls])
    | close =>
      simp only [NamedPipeTransport.step] at hs
      cases hclosed : s.closed with
      | true =>
        rw [if_pos hclosed] at hs
        cases hs
        exact h
      | false =>
        obtain ⟨-, hcalls⟩ := h.open_calls hclosed
        rw [if_neg (by simp [hclosed])] at hs
        cases hs
        exact .closed s.said rfl rfl List.prefix_rfl (by rw [← hcalls])
    | peekNamedPipe | readFile | post | leave | die | exit | deliver =>
      exact absurd ⟨fun _ _ => by simp, by simp⟩ hother

end

/-! ## Every run -/

/-- **The client receives what the worker has read.** In every run, what the stream has brought is a
beginning of what was read from the pipe, in chunks of at most 64 KiB of which none is empty; nothing
is given to a stream that is closed; and where the stream is closed and nobody has closed the transport,
it has brought all of it. Once the worker is out of its loop the stream is closed after as many of the
steps that close it as there are messages to handle, and at most four. -/
theorem incoming_faithful {actions : List Action} {s : NamedPipeTransport}
    (hrun : actions.foldlM step connected = some s) :
    s.thrown = false ∧ s.events.flatten <+: s.read ∧ (∀ bytes ∈ s.events, Sized bytes) ∧
      (s.isClosed = true → s.killed = false → s.events.flatten = s.read) ∧
      (s.worker.Out → ∀ (more : List Action) (t : NamedPipeTransport), more.foldlM step s = some t →
        s.posted.length + 4 ≤ more.countP Action.closes → t.isClosed = true) := by
  have hreached : Reached s :=
    Runs.run_invariant (fun _ _ _ _ h hs => h.step hs) hrun connected_reached
  obtain ⟨chunks, ends, h⟩ := id hreached
  refine ⟨h.thrown, ?_, fun bytes hbytes => h.sized bytes (List.mem_append_left _ hbytes),
    fun hclosed hlive => ?_, fun hout more t hmore hsteps => ?_⟩
  · rw [h.read, List.append_assoc, List.append_assoc]
    exact List.prefix_append _ _
  · have hstop : ¬ s.worker.Running := by
      intro hrunning
      rw [(h.running hrunning).1] at hclosed
      cases hclosed
    have hholds : s.worker.holds = [] := by
      cases hworker : s.worker with
      | exiting | gone => rfl
      | asking | reading | posting | leaving =>
        rw [hworker] at hstop
        exact absurd trivial hstop
    rw [h.read, h.delivered hclosed, hholds, h.lost hlive]
    simp
  · refine closing_nears.done hmore ⟨hreached, hout⟩ (le_trans ?_ hsteps)
    cases s.worker <;> simp [ReadLoop.left]

/-- Five bytes, and then the end of the pipe. -/
def fiveBytes : List Action := [.peekNamedPipe (some 5), .readFile (some (ascii "hello")), .post,
  .peekNamedPipe none, .deliver, .leave, .exit, .deliver]

theorem incoming_faithful_five : ∃ s, fiveBytes.foldlM step connected = some s ∧
    s.isClosed = true ∧ s.events.flatten = s.read ∧ s.read = ascii "hello" := by
  obtain ⟨s, hrun, hclosed, hlive, hread⟩ : ∃ s, fiveBytes.foldlM step connected = some s ∧
      s.isClosed = true ∧ s.killed = false ∧ s.read = ascii "hello" := ⟨_, rfl, rfl, rfl, rfl⟩
  obtain ⟨-, -, -, hall, -⟩ := incoming_faithful hrun
  exact ⟨s, hrun, hclosed, hall hclosed hlive, hread⟩

/-- **The handle is closed once, and never used after.** In every run the main isolate has written what
it was given to send, in order; after a write that failed, or once it has closed the handle, it has done
nothing more with it. So a transport on which a write has failed is never closed. -/
theorem handle_handled {actions : List Action} {s : NamedPipeTransport}
    (hrun : actions.foldlM step connected = some s) : Handled s :=
  Runs.run_invariant (fun _ _ _ _ h hs => h.step hs) hrun (.writing rfl rfl rfl)

/-- The second write fails, and the handle stays open. -/
theorem handle_handled_broken : ∃ s, [Action.send (ascii "hello") true, .send (ascii "again") false,
    .send (ascii "more") true, .close].foldlM step connected = some s ∧
      s.calls = [.writeFile (ascii "hello") true, .writeFile (ascii "again") false] ∧ Handled s := by
  obtain ⟨s, hrun, hcalls⟩ : ∃ s, [Action.send (ascii "hello") true, .send (ascii "again") false,
      .send (ascii "more") true, .close].foldlM step connected = some s ∧
        s.calls = [.writeFile (ascii "hello") true, .writeFile (ascii "again") false] := ⟨_, rfl, rfl⟩
  exact ⟨s, hrun, hcalls, handle_handled hrun⟩

end NamedPipeTransport

end OakBarrels.Client
