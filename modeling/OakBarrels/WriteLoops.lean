import OakBarrels.Lib.Runs
import OakBarrels.Transport

/-!
# The write loops

A call of a transport's `write` while it is going on: what it has asked the system for, and what the
system has taken.
-/

open Octets

namespace OakBarrels

/-- A call of the system's `write`, from where in the vector and for how many bytes. -/
structure Request where
  start : Nat
  count : Nat
deriving DecidableEq, Repr

def Request.data (r : Request) (bytes : Bytes) : Bytes := (bytes.drop r.start).take r.count

/-- Nothing is `returned` while the last request has no answer. -/
structure WriteCall where
  written : Nat
  requests : List Request
  accepted : Bytes
  returned : Option Bool
deriving DecidableEq, Repr

namespace WriteCall

variable (bytes : Bytes)

/-- The next request of a loop that has written so much. -/
def nextRequest (written : Nat) : Request := ⟨written, min (bytes.length - written) kMaxIoChunk⟩

/-- The head of the loop. -/
def turn (s : WriteCall) : WriteCall :=
  if s.written < bytes.length then
    { s with requests := s.requests ++ [nextRequest bytes s.written] }
  else { s with returned := some true }

def start : WriteCall := turn bytes ⟨0, [], [], none⟩

/-- The system has taken the first bytes of the last request. -/
def took (s : WriteCall) (count : Nat) : WriteCall :=
  { s with
    written := s.written + count
    accepted := s.accepted ++ ((nextRequest bytes s.written).data bytes).take count }

/-- The system's answer to the last request. It takes no more than it was asked for, and answers
nothing after the call has returned. -/
def answer (s : WriteCall) (result : SystemWrite) : Option WriteCall :=
  match s.returned with
  | some _ => none
  | none =>
    match result with
    | .interrupted => some (s.turn bytes)
    | .failed => some { s with returned := some false }
    | .accepted count =>
      if count = 0 then some { s with returned := some false }
      else if (nextRequest bytes s.written).count < count then none
      else some ((s.took bytes count).turn bytes)

def answers (s : WriteCall) (results : List SystemWrite) : Option WriteCall :=
  results.foldlM (answer bytes) s

end WriteCall

/-- The transports that write with such a loop. -/
inductive Endpoint
  | stdio
  | unixSocket (connectionFd : Int)

def StdioTransport.write (bytes : Bytes) : WriteCall := .start bytes

def UnixSocketTransport.write (connectionFd : Int) (bytes : Bytes) : WriteCall :=
  if connectionFd < 0 then ⟨0, [], [], some false⟩ else .start bytes

namespace Endpoint

def write (bytes : Bytes) : Endpoint → WriteCall
  | .stdio => StdioTransport.write bytes
  | .unixSocket connectionFd => UnixSocketTransport.write connectionFd bytes

/-- Standard output is always there. -/
def Connected : Endpoint → Prop
  | .stdio => True
  | .unixSocket connectionFd => 0 ≤ connectionFd

end Endpoint

namespace WriteCall

/-- What holds of a call at every moment. -/
structure Exact (bytes : Bytes) (connected : Prop) (s : WriteCall) : Prop where
  requests : ∀ r ∈ s.requests, r.count ≤ kMaxIoChunk ∧ r.start + r.count ≤ bytes.length
  accepted : s.accepted <+: bytes
  returned : s.returned = some true ↔ connected ∧ s.accepted = bytes
  unconnected : ¬ connected → s.requests = [] ∧ s.returned = some false

/-- The running offset is what the system has taken. -/
structure Inv (bytes : Bytes) (s : WriteCall) : Prop where
  requests : ∀ r ∈ s.requests, r.count ≤ kMaxIoChunk ∧ r.start + r.count ≤ bytes.length
  within : s.written ≤ bytes.length
  accepted : s.accepted = bytes.take s.written
  returned : s.returned = some true ↔ s.written = bytes.length

section

variable {bytes : Bytes} {s t : WriteCall}

theorem turn_inv (hrequests : ∀ r ∈ s.requests, r.count ≤ kMaxIoChunk ∧
      r.start + r.count ≤ bytes.length) (hwithin : s.written ≤ bytes.length)
    (haccepted : s.accepted = bytes.take s.written) (hreturned : s.returned = none) :
    Inv bytes (s.turn bytes) := by
  unfold turn
  split
  · rename_i hmore
    refine ⟨?_, hwithin, haccepted, ?_⟩
    · intro r hr
      obtain hr | rfl := List.mem_append.mp hr |>.imp_right List.mem_singleton.mp
      · exact hrequests r hr
      · unfold nextRequest
        simp only
        omega
    · simp only [hreturned]
      exact iff_of_false nofun (by omega)
  · exact ⟨hrequests, hwithin, haccepted, iff_of_true rfl (by simp only; omega)⟩

theorem start_inv : Inv bytes (start bytes) := turn_inv nofun (Nat.zero_le _) rfl rfl

theorem accepted_add {written count : Nat} (hwithin : written ≤ bytes.length)
    (hcount : count ≤ (nextRequest bytes written).count) : written + count ≤ bytes.length ∧
      bytes.take written ++ ((nextRequest bytes written).data bytes).take count =
        bytes.take (written + count) := by
  unfold nextRequest at hcount ⊢
  simp only at hcount
  refine ⟨by omega, ?_⟩
  unfold Request.data
  rw [List.take_take, min_eq_left hcount, ← List.take_add]

/-- What an answer can be, and what the loop makes of it. -/
theorem answer_cases {result : SystemWrite} (hs : s.answer bytes result = some t) :
    s.returned = none ∧
    ((result = .interrupted ∧ t = s.turn bytes) ∨
    ((result = .failed ∨ result = .accepted 0) ∧ t = { s with returned := some false }) ∨
    ∃ count, result = .accepted count ∧ 0 < count ∧
      count ≤ (nextRequest bytes s.written).count ∧ t = (s.took bytes count).turn bytes) := by
  unfold answer at hs
  split at hs
  · cases hs
  · rename_i hnone
    refine ⟨hnone, ?_⟩
    split at hs
    · cases hs
      exact .inl ⟨rfl, rfl⟩
    · cases hs
      exact .inr (.inl ⟨.inl rfl, rfl⟩)
    · rename_i count
      split at hs
      · rename_i hzero
        cases hs
        exact .inr (.inl ⟨.inr (by rw [hzero]), rfl⟩)
      · rename_i hzero
        split at hs
        · cases hs
        · rename_i hcount
          cases hs
          exact .inr (.inr ⟨count, rfl, by omega, by omega, rfl⟩)

theorem answer_inv {result : SystemWrite} (h : Inv bytes s) (hs : s.answer bytes result = some t) :
    Inv bytes t := by
  obtain ⟨hnone, ⟨-, rfl⟩ | ⟨-, rfl⟩ | ⟨count, -, -, hcount, rfl⟩⟩ := answer_cases hs
  · exact turn_inv h.requests h.within h.accepted hnone
  · refine ⟨h.requests, h.within, h.accepted, ?_⟩
    rw [← h.returned, hnone]
    exact iff_of_false nofun nofun
  · obtain ⟨hwithin, htaken⟩ := accepted_add h.within hcount
    have haccepted : (s.took bytes count).accepted = bytes.take (s.took bytes count).written := by
      unfold took
      rw [h.accepted, htaken]
    exact turn_inv h.requests hwithin haccepted hnone

theorem turn_keeps (bytes : Bytes) (s : WriteCall) :
    (s.turn bytes).written = s.written ∧ (s.turn bytes).accepted = s.accepted ∧
      (s.returned = none → (s.turn bytes).returned ≠ some false) := by
  unfold turn
  split
  · exact ⟨rfl, rfl, fun hnone => by simp [hnone]⟩
  · exact ⟨rfl, rfl, fun _ => by simp⟩

end

theorem answers_inv {bytes : Bytes} {s t : WriteCall} {results : List SystemWrite}
    (h : Inv bytes s) (hs : s.answers bytes results = some t) : Inv bytes t :=
  Runs.run_invariant (fun _ _ _ _ h hs => answer_inv h hs) hs h

theorem Inv.exact {bytes : Bytes} {s : WriteCall} (h : Inv bytes s) : Exact bytes True s := by
  refine ⟨h.requests, ?_, ?_, fun hconnected => absurd trivial hconnected⟩
  · rw [h.accepted]
    exact List.take_prefix _ _
  · have hle := h.within
    rw [h.returned, h.accepted, List.take_eq_self_iff, true_and]
    omega

/-- A call that has returned is not answered any more. -/
theorem answers_returned {bytes : Bytes} {s t : WriteCall} {results : List SystemWrite} {ok : Bool}
    (h : s.returned = some ok) (hs : s.answers bytes results = some t) : t = s := by
  cases results with
  | nil =>
    obtain rfl : s = t := by simpa [answers] using hs
    rfl
  | cons result rest =>
    obtain ⟨u, hu, -⟩ := Runs.run_cons.mp hs
    rw [(answer_cases hu).1] at h
    cases h

theorem Inv.more {bytes : Bytes} {s : WriteCall} (h : Inv bytes s) (hnone : s.returned = none) :
    bytes.drop s.written ≠ [] := by
  have hne : s.written ≠ bytes.length := by
    rw [Ne, ← h.returned, hnone]
    exact nofun
  have hle := h.within
  rw [Ne, List.drop_eq_nil_iff]
  omega

/-- `writeLoop` takes from what is left what the call counts from the beginning. -/
theorem writeLoop_took {bytes : Bytes} {s : WriteCall} {count : Nat} {rest : List SystemWrite}
    (hmore : bytes.drop s.written ≠ []) (hpos : 0 < count)
    (hcount : count ≤ (nextRequest bytes s.written).count) :
    writeLoop (.accepted count :: rest) (bytes.drop s.written) s.accepted =
      writeLoop rest (bytes.drop (s.took bytes count).written) (s.took bytes count).accepted := by
  have hchunk : count ≤ min (bytes.length - s.written) kMaxIoChunk := hcount
  have htaken : min count (min (bytes.drop s.written).length kMaxIoChunk) = count := by
    rw [List.length_drop]
    exact min_eq_left hchunk
  have hdata : ((nextRequest bytes s.written).data bytes).take count =
      (bytes.drop s.written).take count := by
    unfold Request.data
    rw [List.take_take, min_eq_left hcount]
    rfl
  unfold took
  rw [writeLoop, if_neg hmore]
  simp only
  rw [if_neg (by omega), htaken, hdata, List.drop_drop]

theorem answers_writeLoop {bytes : Bytes} {s t : WriteCall} {results : List SystemWrite} {ok : Bool}
    (h : Inv bytes s) (hgoing : s.returned ≠ some false) (hs : s.answers bytes results = some t)
    (hok : t.returned = some ok) :
    writeLoop results (bytes.drop s.written) s.accepted = some (t.accepted, ok) := by
  induction results generalizing s with
  | nil =>
    obtain rfl : s = t := by simpa [answers] using hs
    obtain rfl : ok = true := by
      by_contra hfalse
      rw [Bool.not_eq_true] at hfalse
      exact hgoing (hfalse ▸ hok)
    unfold writeLoop
    rw [if_pos (by rw [h.returned.mp hok, List.drop_length])]
  | cons result rest ih =>
    obtain ⟨u, hu, hrest⟩ := Runs.run_cons.mp hs
    have hinv := answer_inv h hu
    obtain ⟨hnone, hcases⟩ := answer_cases hu
    obtain ⟨rfl, rfl⟩ | ⟨hresult, rfl⟩ | ⟨count, rfl, hpos, hcount, rfl⟩ := hcases
    · obtain ⟨hwritten, haccepted, hgoing⟩ := turn_keeps bytes s
      have hloop := ih hinv (hgoing hnone) hrest
      rw [hwritten, haccepted] at hloop
      unfold writeLoop
      rw [if_neg (h.more hnone)]
      exact hloop
    · obtain rfl := answers_returned rfl hrest
      obtain rfl : false = ok := by simpa using hok
      unfold writeLoop
      rw [if_neg (h.more hnone)]
      obtain rfl | rfl := hresult
      · rfl
      · rfl
    · obtain ⟨hwritten, haccepted, hgoing⟩ := turn_keeps bytes (s.took bytes count)
      have hloop := ih hinv (hgoing hnone) hrest
      rw [hwritten, haccepted] at hloop
      rw [writeLoop_took (h.more hnone) hpos hcount]
      exact hloop

/-- What has come back from the loop is what `writeLoop` comes back with. -/
theorem start_writeLoop {bytes : Bytes} {s : WriteCall} {results : List SystemWrite} {ok : Bool}
    (hs : (start bytes).answers bytes results = some s) (hok : s.returned = some ok) :
    writeLoop results bytes [] = some (s.accepted, ok) := by
  obtain ⟨hwritten, haccepted, hgoing⟩ := turn_keeps bytes ⟨0, [], [], none⟩
  have hloop := answers_writeLoop start_inv (hgoing rfl) hs hok
  unfold start at hloop
  rwa [hwritten, haccepted] at hloop

end WriteCall

/-- At every moment of a call the requests lie within the vector and are small enough, what the
system has taken is the beginning of the vector, and the call has returned true when that is all of
it. Where there is no connection nothing is asked, and the call returns false. -/
theorem write_exact {bytes : Bytes} {endpoint : Endpoint} {results : List SystemWrite}
    {s : WriteCall} (hs : (endpoint.write bytes).answers bytes results = some s) :
    s.Exact bytes endpoint.Connected := by
  have hloop : (WriteCall.start bytes).answers bytes results = some s →
      endpoint.Connected → s.Exact bytes endpoint.Connected := by
    intro hs hconnected
    have hexact := (WriteCall.answers_inv WriteCall.start_inv hs).exact
    rwa [eq_true hconnected]
  unfold Endpoint.write at hs
  split at hs
  · exact hloop hs trivial
  · unfold UnixSocketTransport.write at hs
    split at hs
    · rename_i fd hfd
      obtain rfl := WriteCall.answers_returned rfl hs
      have hnot : ¬ (Endpoint.unixSocket fd).Connected := not_le.mpr hfd
      exact ⟨nofun, List.nil_prefix, iff_of_false nofun fun h => hnot h.1, fun _ => ⟨rfl, rfl⟩⟩
    · rename_i hfd
      exact hloop hs (not_lt.mp hfd)

/-- A write that is interrupted once, and then taken in two parts. -/
theorem write_exact_parts : ∃ s, (Endpoint.stdio.write (ascii "frame")).answers (ascii "frame")
    [.interrupted, .accepted 2, .accepted 3] = some s ∧
      s.returned = some true ∧ s.Exact (ascii "frame") Endpoint.stdio.Connected := by
  obtain ⟨s, hs, hreturned⟩ : ∃ s, (Endpoint.stdio.write (ascii "frame")).answers (ascii "frame")
      [.interrupted, .accepted 2, .accepted 3] = some s ∧ s.returned = some true := ⟨_, rfl, rfl⟩
  exact ⟨s, hs, hreturned, write_exact hs⟩

/-- Of no bytes nothing is missing, and a socket that nobody has connected to returns false. -/
theorem write_fails_unconnected : ¬ ∀ (bytes : Bytes) (endpoint : Endpoint)
    (results : List SystemWrite) (s : WriteCall),
    (endpoint.write bytes).answers bytes results = some s →
      (∀ r ∈ s.requests, r.count ≤ kMaxIoChunk ∧ r.start + r.count ≤ bytes.length) ∧
        s.accepted <+: bytes ∧ (s.returned = some true ↔ s.accepted = bytes) := by
  intro h
  have hempty := h [] (.unixSocket (-1)) [] _ rfl
  exact absurd (hempty.2.2.mpr rfl) (by decide)

end OakBarrels
