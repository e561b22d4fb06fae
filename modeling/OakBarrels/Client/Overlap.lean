import OakBarrels.Client.Pairing

/-!
# Calls that overlap

The same client and station where a caller need not wait: the next call may start while one waits.
The client has one slot for who waits, and a call that starts takes it.
-/

open Octets OakBarrels.Protocol

namespace OakBarrels.Client

/-! ## What one operation of the client does -/

/-- An operation, timers apart: it leaves the slot, puts a call there, gives a call the first frame
of the queue, or settles the call in the slot. -/
inductive Turn {c : Convert} (r r' : Relay c) : Prop
  | stays : r'.waiter = r.waiter → r'.outcomes = r.outcomes → r'.sent = r.sent →
      (r'.queued = r.queued ∨ r.waiter = none) →
      (r'.failure = r.failure ∨ r.failure = none ∧ r.waiter = none) → Turn r r'
  | waits : r'.waiter.isSome = true → r'.outcomes = r.outcomes → r'.sent = r.sent + 1 →
      r'.queued = [] → r.failure = none → r'.failure = none → Turn r r'
  | served (outcome : Outcome c) : r'.waiter = none → r'.outcomes = r.outcomes ++ [outcome] →
      r'.sent = r.sent + 1 → r.queued ≠ [] → outcome.isCompleted = true →
      r'.failure = r.failure → Turn r r'
  | settles (outcome : Outcome c) : r.waiter.isSome = true → r'.waiter = none →
      r'.outcomes = r.outcomes ++ [outcome] → r'.sent = r.sent →
      (outcome.isCompleted = true ∧ r'.failure = r.failure ∨
        ∃ failure, outcome = .failed failure ∧ r.failure = none ∧ r'.failure = some failure) →
      Turn r r'

section

variable {c : Convert} {fields : Fields c} (r : Relay c)

theorem request_turn (call : Call) (frame : Frame c) (isPaused : Bool) :
    Turn r (r.request fields call frame isPaused).1 := by
  unfold Relay.request
  split
  · exact .stays rfl rfl rfl (.inl rfl) (.inl rfl)
  · rename_i hfailure
    have hnone : r.failure = none := by simpa using hfailure
    split
    · exact .stays rfl rfl rfl (.inl rfl) (.inl rfl)
    · split
      · exact .stays rfl rfl rfl (.inl rfl) (.inl rfl)
      · simp only
        split
        · rename_i hqueue
          exact .served _ rfl rfl rfl (by rw [hqueue]; exact List.cons_ne_nil _ _) rfl rfl
        · rename_i hqueue
          exact .waits rfl rfl rfl hqueue hnone hnone

theorem fail_turn (failure : Failure) : Turn r (r.fail failure) := by
  unfold Relay.fail
  split
  · exact .stays rfl rfl rfl (.inl rfl) (.inl rfl)
  · rename_i hnone
    simp only
    split
    · rename_i call hwaiter
      exact .settles _ (by rw [hwaiter]; rfl) rfl rfl rfl (.inr ⟨failure, rfl, hnone, rfl⟩)
    · rename_i hwaiter
      exact .stays rfl rfl rfl (.inl rfl) (.inr ⟨hnone, hwaiter⟩)

/-- With nobody waiting, all frames are kept. -/
theorem delivers_idle (frames : List (Frame c)) {r : Relay c} (h : r.waiter = none) :
    (frames.foldl (Relay.deliver fields) r).waiter = none ∧
      (frames.foldl (Relay.deliver fields) r).outcomes = r.outcomes ∧
      (frames.foldl (Relay.deliver fields) r).sent = r.sent ∧
      (frames.foldl (Relay.deliver fields) r).failure = r.failure := by
  induction frames generalizing r with
  | nil => exact ⟨h, rfl, rfl, rfl⟩
  | cons frame rest ih =>
    have hdeliver : r.deliver fields frame
        = { r with arrived := r.arrived + 1, queued := r.queued ++ [(r.arrived + 1, frame)] } := by
      unfold Relay.deliver
      simp only [h]
    rw [List.foldl_cons, hdeliver]
    exact ih h

theorem delivers_turn (frames : List (Frame c)) :
    Turn r (frames.foldl (Relay.deliver fields) r) := by
  cases hwaiter : r.waiter with
  | none =>
    obtain ⟨hnone, houtcomes, hsent, hfailure⟩ := @delivers_idle c fields frames _ hwaiter
    exact .stays (hnone.trans hwaiter.symm) houtcomes hsent (.inr hwaiter) (.inl hfailure)
  | some call =>
    match frames with
    | [] => exact .stays rfl rfl rfl (.inl rfl) (.inl rfl)
    | frame :: rest =>
      have hdeliver : r.deliver fields frame
          = { r with arrived := r.arrived + 1 }.complete fields call (r.arrived + 1) frame := by
        unfold Relay.deliver
        simp only [hwaiter]
      rw [List.foldl_cons, hdeliver]
      obtain ⟨hnone, houtcomes, hsent, hfailure⟩ := @delivers_idle c fields rest _
        (show ({ r with arrived := r.arrived + 1 }.complete fields call (r.arrived + 1)
          frame).waiter = none from rfl)
      exact .settles _ (by rw [hwaiter]; rfl) hnone houtcomes hsent (.inl ⟨rfl, hfailure⟩)

theorem Turn.of_decoder {r r' : Relay c} {decoder : FrameDecoder}
    (h : Turn { r with decoder } r') : Turn r r' := by
  cases h with
  | stays h1 h2 h3 h4 h5 => exact .stays h1 h2 h3 h4 h5
  | waits h1 h2 h3 h4 h5 h6 => exact .waits h1 h2 h3 h4 h5 h6
  | served o h1 h2 h3 h4 h5 h6 => exact .served o h1 h2 h3 h4 h5 h6
  | settles o h1 h2 h3 h4 h5 => exact .settles o h1 h2 h3 h4 h5

theorem onBytes_turn (chunk : Bytes) : Turn r (r.onBytes fields chunk) := by
  unfold Relay.onBytes
  split
  · exact (fail_turn _ _).of_decoder
  · exact .stays rfl rfl rfl (.inl rfl) (.inl rfl)
  · exact (delivers_turn _ _).of_decoder

end

/-! ## Runs with calls that overlap -/

/-- The number of the request in the slot, and the numbers of those that the client's outcomes
settle, in that order. -/
structure Overlap (c : Convert) extends System c where
  waiting : Option Nat
  settlers : List Nat

/-- What may happen next. A reply is one that both sides can carry. -/
inductive Event (c : Convert)
  | request (call : Call) (frame : Frame c) (isPaused : Bool)
  | reply (wire : Protocol.Frame) (frame : Frame c) (carried : wire.Fits ∧ Reads wire frame)
  | bytes (count : Nat)
  | fail (failure : Failure)

def Event.isRequest {c : Convert} : Event c → Bool
  | .request .. => true
  | _ => false

namespace Overlap

variable {c : Convert} (fields : Fields c)

def start (c : Convert) : Overlap c := ⟨.start c, none, []⟩

/-- The numbers after an operation of the client: it concerns the request it sends, or else the one
in the slot. -/
def turn (s : Overlap c) (relay : Relay c) : Overlap c :=
  let number := if relay.sent = s.relay.sent then s.waiting else some s.relay.sent
  { s with
    relay
    waiting := if relay.waiter.isSome then number else none
    settlers :=
      if relay.outcomes.length = s.relay.outcomes.length then s.settlers
      else s.settlers ++ number.toList }

/-- The station replies only where it has not answered every request. -/
def step (s : Overlap c) : Event c → Overlap c
  | .request call frame isPaused => s.turn (s.relay.request fields call frame isPaused).1
  | .reply wire frame _ =>
    if s.replies.length < s.relay.sent then
      { s with replies := s.replies ++ [(wire, frame)], pending := s.pending ++ wire.encoded }
    else s
  | .bytes count =>
    { s.turn (s.relay.onBytes fields (s.pending.take count)) with
      pending := s.pending.drop count }
  | .fail failure => s.turn (s.relay.fail failure)

def run (s : Overlap c) (events : List (Event c)) : Overlap c := events.foldl (step fields) s

theorem run_cons (s : Overlap c) (event : Event c) (rest : List (Event c)) :
    run fields s (event :: rest) = run fields (step fields s event) rest := rfl

theorem run_concat (s : Overlap c) (events : List (Event c)) (event : Event c) :
    run fields s (events ++ [event]) = step fields (run fields s events) event := by
  unfold run
  rw [List.foldl_append]
  rfl

theorem run_append (s : Overlap c) (events more : List (Event c)) :
    run fields s (events ++ more) = run fields (run fields s events) more := List.foldl_append

/-! ## What every run keeps -/

/-- Whatever the calls: the slot and the settled requests are requests sent, each settled once, and
the client holds frames or a waiter, not both. -/
structure Held (s : Overlap c) : Prop where
  waiting : s.waiting.isSome = s.relay.waiter.isSome
  pending : ∀ w, s.waiting = some w → w < s.relay.sent ∧ w ∉ s.settlers
  settled : ∀ k ∈ s.settlers, k < s.relay.sent
  once : s.settlers.Nodup
  queue : s.relay.waiter.isSome = true → s.relay.queued = []
  quiet : s.relay.failure.isSome = true → s.relay.waiter = none
  outcomes : ∀ outcome ∈ s.relay.outcomes, outcome.isCompleted = true ∨
    ∃ failure, outcome = .failed failure ∧ s.relay.failure = some failure

theorem start_held : Held (start c) :=
  ⟨rfl, by simp [start], by simp [start], List.nodup_nil, fun _ => rfl, fun _ => rfl,
    by simp [start, System.start, Relay.attached]⟩

section

variable {fields} {s : Overlap c} {relay : Relay c}

theorem Held.turn_stays (h : Held s) (hwaiter : relay.waiter = s.relay.waiter)
    (houtcomes : relay.outcomes = s.relay.outcomes) (hsent : relay.sent = s.relay.sent) :
    s.turn relay = { s with relay } := by
  have hwaiting : (if s.relay.waiter.isSome = true then s.waiting else none) = s.waiting := by
    split
    · rfl
    · rename_i hnone
      rw [← h.waiting] at hnone
      exact (Option.not_isSome_iff_eq_none.mp hnone).symm
  simp [turn, hwaiter, houtcomes, hsent, hwaiting]

theorem turn_waits (hwaiter : relay.waiter.isSome = true)
    (houtcomes : relay.outcomes = s.relay.outcomes) (hsent : relay.sent = s.relay.sent + 1) :
    s.turn relay = { s with relay, waiting := some s.relay.sent } := by
  simp [turn, hwaiter, houtcomes, hsent]

theorem turn_served {outcome : Outcome c} (hwaiter : relay.waiter = none)
    (houtcomes : relay.outcomes = s.relay.outcomes ++ [outcome])
    (hsent : relay.sent = s.relay.sent + 1) :
    s.turn relay
      = { s with relay, waiting := none, settlers := s.settlers ++ [s.relay.sent] } := by
  simp [turn, hwaiter, houtcomes, hsent]

theorem turn_settles {outcome : Outcome c} {w : Nat} (hw : s.waiting = some w)
    (hwaiter : relay.waiter = none) (houtcomes : relay.outcomes = s.relay.outcomes ++ [outcome])
    (hsent : relay.sent = s.relay.sent) :
    s.turn relay = { s with relay, waiting := none, settlers := s.settlers ++ [w] } := by
  simp [turn, hwaiter, houtcomes, hsent, hw]

theorem Held.turn (h : Held s) (ht : Turn s.relay relay) : Held (s.turn relay) := by
  cases ht with
  | stays hwaiter houtcomes hsent hqueue hfailure =>
    rw [h.turn_stays hwaiter houtcomes hsent]
    refine ⟨hwaiter ▸ h.waiting, hsent ▸ h.pending, hsent ▸ h.settled, h.once, ?_, ?_, ?_⟩
    · simp only [hwaiter]
      intro hsome
      rcases hqueue with hqueue | hnone
      · exact hqueue.trans (h.queue hsome)
      · simp [hnone] at hsome
    · simp only [hwaiter]
      rcases hfailure with hfailure | ⟨-, hnone⟩
      · rw [hfailure]
        exact h.quiet
      · exact fun _ => hnone
    · simp only [houtcomes]
      rcases hfailure with hfailure | ⟨hnone, -⟩
      · rw [hfailure]
        exact h.outcomes
      · intro outcome hmem
        rcases h.outcomes outcome hmem with hdone | ⟨failure, -, hsome⟩
        · exact .inl hdone
        · simp [hnone] at hsome
  | waits hwaiter houtcomes hsent hqueue hnone hfailure =>
    rw [turn_waits hwaiter houtcomes hsent]
    refine ⟨hwaiter.symm, ?_, ?_, h.once, fun _ => hqueue, by simp [hfailure], ?_⟩
    · intro w hw
      cases hw
      exact ⟨by simp only [hsent]; omega, fun hmem => absurd (h.settled _ hmem) (by omega)⟩
    · intro k hk
      have := h.settled k hk
      simp only [hsent]
      omega
    · simp only [houtcomes, hfailure, ← hnone]
      exact h.outcomes
  | served outcome hwaiter houtcomes hsent hqueue hdone hfailure =>
    rw [turn_served hwaiter houtcomes hsent]
    refine ⟨by simp [hwaiter], by simp, ?_, ?_, by simp [hwaiter], fun _ => hwaiter, ?_⟩
    · intro k hk
      simp only [List.mem_append, List.mem_singleton] at hk
      simp only [hsent]
      rcases hk with hk | rfl
      · have := h.settled k hk
        omega
      · omega
    · have hfresh : s.relay.sent ∉ s.settlers := fun hmem => absurd (h.settled _ hmem) (by omega)
      simpa using h.once.concat hfresh
    · simp only [houtcomes, hfailure, List.mem_append, List.mem_singleton]
      rintro outcome' (hmem | rfl)
      · exact h.outcomes outcome' hmem
      · exact .inl hdone
  | settles outcome hsome hwaiter houtcomes hsent hresult =>
    obtain ⟨w, hw⟩ := Option.isSome_iff_exists.mp (h.waiting.trans hsome)
    obtain ⟨hlt, hnot⟩ := h.pending w hw
    rw [turn_settles hw hwaiter houtcomes hsent]
    refine ⟨by simp [hwaiter], by simp, ?_, by simpa using h.once.concat hnot,
      by simp [hwaiter], fun _ => hwaiter, ?_⟩
    · intro k hk
      simp only [List.mem_append, List.mem_singleton] at hk
      simp only [hsent]
      rcases hk with hk | rfl
      · exact h.settled k hk
      · exact hlt
    · simp only [houtcomes, List.mem_append, List.mem_singleton]
      rintro outcome' (hmem | rfl)
      · rcases h.outcomes outcome' hmem with hdone | ⟨failure, -, hfailure⟩
        · exact .inl hdone
        · have := h.quiet (by rw [hfailure]; rfl)
          simp [this] at hsome
      · rcases hresult with ⟨hdone, -⟩ | ⟨failure, rfl, -, hfailure⟩
        · exact .inl hdone
        · exact .inr ⟨failure, rfl, hfailure⟩

/-- Every event is one operation of the client, if only that it stays as it is. -/
theorem Held.step_turns (h : Held s) (event : Event c) :
    ∃ relay replies pending, Turn s.relay relay ∧
      s.step fields event = { s.turn relay with replies, pending } := by
  cases event with
  | request call frame isPaused => exact ⟨_, _, _, request_turn _ _ _ _, rfl⟩
  | reply wire frame _ =>
    have hstays : s.turn s.relay = s := h.turn_stays rfl rfl rfl
    have hturn : Turn s.relay s.relay := .stays rfl rfl rfl (.inl rfl) (.inl rfl)
    unfold Overlap.step
    simp only
    split
    · exact ⟨_, _, _, hturn, by rw [hstays]⟩
    · exact ⟨_, s.replies, s.pending, hturn, by rw [hstays]⟩
  | bytes count => exact ⟨_, (s.turn _).replies, _, onBytes_turn _ _, rfl⟩
  | fail failure => exact ⟨_, _, _, fail_turn _ _, rfl⟩

theorem Held.step (h : Held s) (event : Event c) : Held (s.step fields event) := by
  obtain ⟨relay, replies, pending, ht, hstep⟩ := h.step_turns event
  have hturn := h.turn ht
  rw [hstep]
  exact ⟨hturn.waiting, hturn.pending, hturn.settled, hturn.once, hturn.queue, hturn.quiet,
    hturn.outcomes⟩

theorem Held.run (h : Held s) (events : List (Event c)) : Held (s.run fields events) := by
  induction events generalizing s with
  | nil => exact h
  | cons event rest ih => exact ih (h.step event)

end

/-! ## A request that lost the slot -/

/-- A request that is neither settled nor in the slot. -/
structure Lost (k : Nat) (s : Overlap c) : Prop where
  sent : k < s.relay.sent
  unsettled : k ∉ s.settlers
  elsewhere : s.waiting ≠ some k

section

variable {fields} {s : Overlap c} {k : Nat}

theorem Lost.turn {relay : Relay c} (hlost : Lost k s) (h : Held s) (ht : Turn s.relay relay) :
    Lost k (s.turn relay) := by
  obtain ⟨hlt, hnot, hother⟩ := hlost
  cases ht with
  | stays hwaiter houtcomes hsent _ _ =>
    rw [h.turn_stays hwaiter houtcomes hsent]
    exact ⟨hsent ▸ hlt, hnot, hother⟩
  | waits hwaiter houtcomes hsent _ _ _ =>
    rw [turn_waits hwaiter houtcomes hsent]
    exact ⟨by simp only [hsent]; omega, hnot, by simp; omega⟩
  | served outcome hwaiter houtcomes hsent _ _ _ =>
    rw [turn_served hwaiter houtcomes hsent]
    exact ⟨by simp only [hsent]; omega, by simp [hnot]; omega, by simp⟩
  | settles outcome hsome hwaiter houtcomes hsent _ =>
    obtain ⟨w, hw⟩ := Option.isSome_iff_exists.mp (h.waiting.trans hsome)
    have hne : k ≠ w := fun heq => hother (heq ▸ hw)
    rw [turn_settles hw hwaiter houtcomes hsent]
    exact ⟨by simp only [hsent]; exact hlt, by simp [hnot, hne], by simp⟩

theorem Lost.step (hlost : Lost k s) (h : Held s) (event : Event c) :
    Lost k (s.step fields event) := by
  obtain ⟨relay, replies, pending, ht, hstep⟩ := h.step_turns event
  have hturn := hlost.turn h ht
  rw [hstep]
  exact ⟨hturn.sent, hturn.unsettled, hturn.elsewhere⟩

theorem Lost.run (hlost : Lost k s) (h : Held s) (events : List (Event c)) :
    Lost k (s.run fields events) := by
  induction events generalizing s with
  | nil => exact hlost
  | cons event rest ih => exact ih (hlost.step h event) (h.step event)

/-- A request sent while one waits takes the slot from it. -/
theorem exists_lost (h : Held s) {event : Event c}
    (hsent : (s.step fields event).relay.sent ≠ s.relay.sent)
    (hwaiter : s.relay.waiter.isSome = true) : ∃ k, Lost k (s.step fields event) := by
  obtain ⟨k, hk⟩ := Option.isSome_iff_exists.mp (h.waiting.trans hwaiter)
  obtain ⟨hlt, hnot⟩ := h.pending k hk
  obtain ⟨relay, replies, pending, ht, hstep⟩ := h.step_turns event
  rw [hstep] at hsent ⊢
  have hmoved : relay.sent ≠ s.relay.sent := hsent
  cases ht with
  | stays _ _ hsame _ _ => exact absurd hsame hmoved
  | waits hwaits houtcomes hmore _ _ _ =>
    rw [turn_waits hwaits houtcomes hmore]
    exact ⟨k, by simp only [hmore]; omega, hnot, by simp; omega⟩
  | served _ _ _ _ hqueue _ _ => exact absurd (h.queue hwaiter) hqueue
  | settles _ _ _ _ hsame _ => exact absurd hsame hmoved

end

/-! ## Runs in which no call takes the slot from another -/

/-- Whatever is sent is sent while nobody waits. -/
def Careful (events : List (Event c)) : Prop :=
  ∀ before event after, events = before ++ event :: after →
    ((run fields (start c) before).step fields event).relay.sent
        ≠ (run fields (start c) before).relay.sent →
      (run fields (start c) before).relay.waiter = none

/-- Requests are settled in the order in which they were sent. -/
structure Ordered (s : Overlap c) : Prop where
  reached : System.Reached fields s.toSystem
  settlers : s.settlers = List.range s.relay.outcomes.length
  answered : s.replies.length ≤ s.relay.sent

section

variable {fields} {s : Overlap c}

theorem Ordered.sent_eq (h : Ordered fields s) :
    s.relay.sent = s.relay.outcomes.length + if s.relay.waiter.isSome then 1 else 0 :=
  h.reached.inv.claims.sent_eq

theorem Ordered.turn {relay : Relay c} (h : Ordered fields s) (hheld : Held s)
    (ht : Turn s.relay relay) (hidle : relay.sent ≠ s.relay.sent → s.relay.waiter = none) :
    (s.turn relay).settlers = List.range relay.outcomes.length ∧ s.relay.sent ≤ relay.sent := by
  have hsettlers := h.settlers
  have hcount := h.sent_eq
  cases ht with
  | stays hwaiter houtcomes hsent _ _ =>
    rw [hheld.turn_stays hwaiter houtcomes hsent, houtcomes]
    exact ⟨hsettlers, hsent.ge⟩
  | waits hwaiter houtcomes hsent _ _ _ =>
    rw [turn_waits hwaiter houtcomes hsent, houtcomes]
    exact ⟨hsettlers, by omega⟩
  | served outcome hwaiter houtcomes hsent _ _ _ =>
    rw [hidle (by omega)] at hcount
    rw [turn_served hwaiter houtcomes hsent, houtcomes]
    refine ⟨?_, by omega⟩
    simp only [hsettlers, List.length_append, List.length_singleton, List.range_succ]
    rw [show s.relay.sent = s.relay.outcomes.length by simpa using hcount]
  | settles outcome hsome hwaiter houtcomes hsent _ =>
    obtain ⟨w, hw⟩ := Option.isSome_iff_exists.mp (hheld.waiting.trans hsome)
    obtain ⟨hlt, hnot⟩ := hheld.pending w hw
    rw [hsome, if_pos rfl] at hcount
    rw [hsettlers, List.mem_range] at hnot
    rw [turn_settles hw hwaiter houtcomes hsent, houtcomes]
    refine ⟨?_, hsent.ge⟩
    simp only [hsettlers, List.length_append, List.length_singleton, List.range_succ]
    rw [show w = s.relay.outcomes.length by omega]

theorem request_unsent (r : Relay c) (call : Call) (frame : Frame c) (isPaused : Bool)
    (h : (r.request fields call frame isPaused).1.sent = r.sent) :
    (r.request fields call frame isPaused).1 = r := by
  revert h
  unfold Relay.request
  split
  · exact fun _ => rfl
  split
  · exact fun _ => rfl
  split
  · exact fun _ => rfl
  simp only
  split
  · intro h
    simp [Relay.complete, Relay.settle] at h
  · intro h
    simp at h

theorem Ordered.step (h : Ordered fields s) (hheld : Held s) {event : Event c}
    (hidle : (s.step fields event).relay.sent ≠ s.relay.sent → s.relay.waiter = none) :
    Ordered fields (s.step fields event) := by
  cases event with
  | request call frame isPaused =>
    obtain ⟨hsettlers, hsent⟩ :=
      h.turn hheld (@request_turn c fields s.relay call frame isPaused) hidle
    refine ⟨?_, hsettlers, h.answered.trans hsent⟩
    by_cases hsame : (s.relay.request fields call frame isPaused).1.sent = s.relay.sent
    · have hrelay := request_unsent s.relay call frame isPaused hsame
      have hreached : System.Reached fields { s.toSystem with relay := s.relay } := h.reached
      rw [← hrelay] at hreached
      exact hreached
    · exact .step h.reached (.request s.toSystem call frame isPaused (hidle hsame))
  | reply wire frame carried =>
    unfold Overlap.step
    simp only
    split
    · rename_i hlt
      exact ⟨.step h.reached (.reply s.toSystem wire frame hlt carried.1 carried.2), h.settlers,
        by simpa using hlt⟩
    · exact h
  | bytes count =>
    obtain ⟨hsettlers, hsent⟩ :=
      h.turn hheld (@onBytes_turn c fields s.relay (s.pending.take count)) hidle
    exact ⟨.step h.reached (.bytes s.toSystem _ _ (List.take_append_drop count _).symm),
      hsettlers, h.answered.trans hsent⟩
  | fail failure =>
    obtain ⟨hsettlers, hsent⟩ := h.turn hheld (fail_turn s.relay failure) hidle
    exact ⟨.step h.reached (.fail s.toSystem failure), hsettlers, h.answered.trans hsent⟩

theorem Careful.ordered {events : List (Event c)} (h : Careful fields events) :
    Ordered fields (run fields (start c) events) := by
  induction events using List.reverseRecOn with
  | nil => exact ⟨.start, rfl, le_refl _⟩
  | append_singleton events event ih =>
    rw [run_concat]
    refine (ih ?_).step (start_held.run events) (h events event [] rfl)
    intro before event' after hsplit
    exact h before event' (after ++ [event]) (by rw [hsplit]; simp)

end

/-! ## Requests and replies in order -/

/-- How a request was settled. -/
def Settled (s : Overlap c) (k : Nat) (outcome : Outcome c) : Prop :=
  (k, outcome) ∈ s.settlers.zip s.relay.outcomes

/-- Every request that completes does so on the reply the station gave to it. While the channel
holds, each reply that arrived has completed its request; and once it failed, each request that was
sent has completed or failed with that failure. -/
structure InOrder (s : Overlap c) : Prop where
  own : ∀ k call n response completion, s.Settled k (.completed call n response completion) →
    n = k + 1 ∧ ∃ wire, s.replies[k]? = some (wire, response)
  served : s.relay.failure = none → ∀ k < s.relay.arrived,
    ∃ call n response completion, s.Settled k (.completed call n response completion)
  failed : ∀ failure, s.relay.failure = some failure → ∀ k < s.relay.sent,
    ∃ outcome, s.Settled k outcome ∧ (outcome.isCompleted = true ∨ outcome = .failed failure)

section

variable {fields} {s : Overlap c}

theorem Ordered.settled_iff (h : Ordered fields s) (k : Nat) (outcome : Outcome c) :
    s.Settled k outcome ↔ s.relay.outcomes[k]? = some outcome := by
  unfold Settled
  rw [h.settlers, List.mem_iff_getElem?]
  simp only [List.getElem?_zip_eq_some]
  constructor
  · rintro ⟨i, hi, houtcome⟩
    obtain ⟨-, rfl⟩ := List.getElem?_eq_some_iff.mp hi
    simpa using houtcome
  · intro houtcome
    obtain ⟨hlt, -⟩ := List.getElem?_eq_some_iff.mp houtcome
    exact ⟨k, by simp [hlt], houtcome⟩

theorem Ordered.own (h : Ordered fields s) (hheld : Held s) {k n : Nat} {call : Call}
    {response : Frame c} {completion : Completion c}
    (hsettled : s.relay.outcomes[k]? = some (.completed call n response completion)) :
    n = k + 1 ∧ ∃ wire, s.replies[k]? = some (wire, response) := by
  have hclaims := h.reached.inv.claims
  obtain ⟨hlt, hget⟩ := List.getElem?_eq_some_iff.mp hsettled
  have hsplit : s.relay.outcomes = s.relay.outcomes.take k
      ++ .completed call n response completion :: s.relay.outcomes.drop (k + 1) := by
    rw [← hget, List.getElem_cons_drop, List.take_append_drop]
  have hall : (s.relay.outcomes.take k).countP Outcome.isCompleted = k := by
    refine (List.countP_eq_length.mpr ?_).trans (List.length_take_of_le hlt.le)
    intro outcome hmem
    rcases hheld.outcomes outcome (List.mem_of_mem_take hmem) with hdone | ⟨failure, rfl, -⟩
    · exact hdone
    · -- A call that failed is the last to be settled.
      obtain ⟨before, after, hbefore⟩ := List.append_of_mem hmem
      rw [hbefore, List.append_assoc, List.cons_append] at hsplit
      obtain ⟨hlast, -⟩ := hclaims.failed _ _ _ hsplit
      simp at hlast
  have hnumber := hclaims.completed _ _ _ _ _ _ hsplit
  rw [hall, System.numbered_getElem?, List.getElem?_map] at hnumber
  obtain ⟨g, hg, hpair⟩ := Option.map_eq_some_iff.mp hnumber
  obtain ⟨⟨wire, received⟩, hreply, hreceived⟩ := Option.map_eq_some_iff.mp hg
  cases hreceived
  cases hpair
  exact ⟨rfl, wire, hreply⟩

theorem Ordered.arrived_le (h : Ordered fields s) (hheld : Held s)
    (hdone : ∀ outcome ∈ s.relay.outcomes, outcome.isCompleted = true) :
    s.relay.arrived ≤ s.relay.outcomes.length := by
  have hclaims := h.reached.inv.claims
  have hcount := h.sent_eq
  have harrived := hclaims.arrived_eq
  have hle := hclaims.arrived_le
  have hanswered := h.answered
  rw [List.length_map] at hle
  rw [System.claimed, List.countP_eq_length.mpr hdone] at harrived
  cases hwaiter : s.relay.waiter.isSome with
  | true =>
    rw [hheld.queue hwaiter] at harrived
    exact harrived.le
  | false =>
    rw [hwaiter] at hcount
    simp only [Bool.false_eq_true, if_false] at hcount
    omega

theorem Ordered.inOrder (h : Ordered fields s) (hheld : Held s) : InOrder s := by
  refine ⟨?_, ?_, ?_⟩
  · intro k call n response completion hsettled
    exact h.own hheld ((h.settled_iff _ _).mp hsettled)
  · intro hnone k hk
    have hdone : ∀ outcome ∈ s.relay.outcomes, outcome.isCompleted = true := by
      intro outcome hmem
      rcases hheld.outcomes outcome hmem with hdone | ⟨failure, -, hsome⟩
      · exact hdone
      · simp [hnone] at hsome
    have hlt : k < s.relay.outcomes.length := hk.trans_le (h.arrived_le hheld hdone)
    have hcompleted := hdone _ (List.getElem_mem hlt)
    cases houtcome : s.relay.outcomes[k] with
    | completed call n response completion =>
      exact ⟨call, n, response, completion, (h.settled_iff _ _).mpr
        (List.getElem?_eq_some_iff.mpr ⟨hlt, houtcome⟩)⟩
    | timedOut =>
      rw [houtcome] at hcompleted
      cases hcompleted
    | failed failure =>
      rw [houtcome] at hcompleted
      cases hcompleted
  · intro failure hfailure k hk
    have hcount := h.sent_eq
    rw [hheld.quiet (by rw [hfailure]; rfl)] at hcount
    have hlt : k < s.relay.outcomes.length := by simpa [hcount] using hk
    refine ⟨_, (h.settled_iff _ _).mpr (List.getElem?_eq_getElem hlt), ?_⟩
    rcases hheld.outcomes _ (List.getElem_mem hlt) with hdone | ⟨cause, hcause, hsame⟩
    · exact .inl hdone
    · rw [hfailure] at hsame
      cases hsame
      exact .inr hcause

theorem Lost.not_inOrder {k : Nat} (h : Lost k s) {failure : Failure}
    (hfailure : s.relay.failure = some failure) : ¬ InOrder s := by
  intro horder
  obtain ⟨outcome, hsettled, -⟩ := horder.failed failure hfailure k h.sent
  exact h.unsettled (List.of_mem_zip hsettled).1

theorem exists_failure (s : Overlap c) (failure : Failure) :
    ∃ first, (s.step fields (.fail failure)).relay.failure = some first := by
  change ∃ first, (s.relay.fail failure).failure = some first
  unfold Relay.fail
  split
  · exact ⟨_, ‹_›⟩
  · simp only
    split <;> exact ⟨failure, rfl⟩

theorem fail_sent (r : Relay c) (failure : Failure) : (r.fail failure).sent = r.sent := by
  unfold Relay.fail
  split
  · rfl
  · simp only
    split <;> rfl

theorem onBytes_sent (r : Relay c) (chunk : Bytes) : (r.onBytes fields chunk).sent = r.sent := by
  have hdeliver : ∀ (r : Relay c) (frame : Frame c), (r.deliver fields frame).sent = r.sent := by
    intro r frame
    unfold Relay.deliver
    simp only
    split <;> rfl
  unfold Relay.onBytes
  split
  · exact fail_sent _ _
  · rfl
  · exact Runs.foldl_keeps hdeliver _ _

theorem step_sent (s : Overlap c) {event : Event c} (h : event.isRequest = false) :
    (s.step fields event).relay.sent = s.relay.sent := by
  cases event with
  | request call frame isPaused => cases h
  | reply wire frame carried =>
    unfold step
    simp only
    split <;> rfl
  | bytes count => exact onBytes_sent _ _
  | fail failure => exact fail_sent _ _

theorem Careful.take {events before : List (Event c)} (h : Careful fields events)
    (hbefore : before <+: events) : Careful fields before := by
  obtain ⟨after, rfl⟩ := hbefore
  intro first event rest hsplit
  exact h first event (rest ++ after) (by rw [hsplit]; simp)

theorem Careful.of_quiet {events more : List (Event c)} (h : Careful fields events)
    (hmore : ∀ event ∈ more, event.isRequest = false) : Careful fields (events ++ more) := by
  intro before event after hsplit hsent
  rcases List.append_eq_append_iff.mp hsplit with ⟨rest, rfl, hrest⟩ | ⟨rest, hevents, hrest⟩
  · exact absurd (step_sent _ (hmore event (by rw [hrest]; simp))) hsent
  · rcases rest with _ | ⟨first, rest⟩
    · exact absurd (step_sent _ (hmore event (by rw [← List.nil_append more, ← hrest]; simp))) hsent
    · cases hrest
      exact h before event rest hevents hsent

end

/-- **Calls that overlap.** Requests and replies stay in order in every state of a run, and in every
state that replies, chunks and failures lead to from there, exactly when each call that sends is
started while none waits. -/
theorem in_order_iff (events : List (Event c)) :
    Careful fields events ↔
      ∀ before more, before <+: events → (∀ event ∈ more, event.isRequest = false) →
        InOrder (run fields (start c) (before ++ more)) := by
  constructor
  · intro hcareful before more hbefore hmore
    exact ((hcareful.take hbefore).of_quiet hmore).ordered.inOrder (start_held.run _)
  · intro horder before event after hsplit hsent
    by_contra hwaiter
    -- The request that waited has lost the slot, and a failure finds it pending.
    obtain ⟨k, hlost⟩ := exists_lost (start_held.run before) hsent
      (Option.isSome_iff_ne_none.mpr hwaiter)
    rw [← run_concat] at hlost
    have hheld := @Held.run c fields _ start_held (before ++ [event])
    have hafter := @Lost.step c fields _ _ hlost hheld (.fail .relayClosed)
    obtain ⟨first, hfirst⟩ := @exists_failure c fields
      (run fields (start c) (before ++ [event])) .relayClosed
    refine hafter.not_inOrder hfirst ?_
    rw [← run_concat]
    exact horder (before ++ [event]) [.fail .relayClosed] ⟨after, by rw [hsplit]; simp⟩
      (by simp [Event.isRequest])

/-! ## The reply that another call takes -/

/-- Whatever the two calls and the reply: the second call takes the reply of the first. -/
theorem exists_out_of_order (first second : Call) {question request reply : Frame c}
    {wire : Protocol.Frame} {asked sent : Bytes} (hasked : question.encode = some asked)
    (hsent : request.encode = some sent) (hfits : wire.Fits) (hreads : Reads wire reply) :
    ¬ InOrder (run fields (start c)
      [.request first question false, .request second request false,
        .reply wire reply ⟨hfits, hreads⟩, .bytes wire.encoded.length]) := by
  intro horder
  let waiting : Relay c := { Relay.attached c with waiter := some second, sent := 2 }
  have hfirst : ((start c).step fields (.request first question false))
      = ⟨⟨{ Relay.attached c with waiter := some first, sent := 1 }, [], []⟩, some 0, []⟩ := by
    simp [step, start, System.start, Relay.request, Relay.attached, hasked, turn]
  have hsecond : (run fields (start c)
      [.request first question false, .request second request false])
      = ⟨⟨waiting, [], []⟩, some 1, []⟩ := by
    rw [run_cons, hfirst]
    simp [run, step, Relay.request, Relay.attached, hsent, turn, waiting]
  have hlate : waiting.onBytes fields wire.encoded
      = { waiting with arrived := 1 }.complete fields second 1 reply := by
    rw [System.onBytes_one hfits hreads rfl]
    rfl
  have hreply : (⟨⟨waiting, [], []⟩, some 1, []⟩ : Overlap c).step fields
      (.reply wire reply ⟨hfits, hreads⟩)
      = ⟨⟨waiting, [(wire, reply)], wire.encoded⟩, some 1, []⟩ := by
    simp [step, waiting]
  have hbytes : (⟨⟨waiting, [(wire, reply)], wire.encoded⟩, some 1, []⟩ : Overlap c).step fields
      (.bytes wire.encoded.length)
      = ⟨⟨{ waiting with arrived := 1 }.complete fields second 1 reply, [(wire, reply)], []⟩,
          none, [1]⟩ := by
    unfold step
    simp only [List.take_length, hlate]
    simp [turn, Relay.complete, Relay.settle, waiting, Relay.attached]
  rw [show ∀ a b d e : Event c, [a, b, d, e] = [a, b] ++ [d, e] from fun _ _ _ _ => rfl,
    run_append, hsecond, run_cons, hreply, run_cons, hbytes] at horder
  obtain ⟨hnumber, -⟩ := horder.own 1 second 1 reply (second.complete fields reply)
    (by simp [run, Settled, Relay.complete, Relay.settle, waiting, Relay.attached])
  cases hnumber

/-- Two queries for the capabilities, and the one CAPS_REPLY that arrived. -/
theorem overlap_fails_at_second :
    ¬ ∀ events, InOrder (run System.asciiFields (start asciiConvert) events) := by
  intro horder
  let request : Frame asciiConvert := ⟨.capsRequest, []⟩
  let wire : Protocol.Frame :=
    ⟨.capsReply, ascii "\x7b\"classes\":[],\"limits\":\x7b\x7d,\"bulk\":false\x7d"⟩
  have hfits : request.wire.Fits ∧ wire.Fits := by
    unfold Protocol.Frame.Fits
    decide +kernel
  obtain ⟨reply, hreads⟩ := exists_reads asciiConvert wire (by decide)
    (by decide +kernel)
  exact exists_out_of_order System.asciiFields .capabilities .capabilities
    (encode_of_fits request hfits.1) (encode_of_fits request hfits.1) hfits.2 hreads (horder _)

end Overlap

end OakBarrels.Client
