import OakBarrels.Bulk.BulkChannelProofs

/-!
# Stopping a channel

The owner asks the worker to stop, waits a while for it, and joins it or lets go of it. The worker
goes on meanwhile, and may leave `run` between any two steps of the owner.
-/

open Octets

namespace OakBarrels.Bulk

/-- What has become of the worker's thread. Only in the first case is it `joinable`. -/
inductive Handle
  | running
  | joined
  | detached
deriving DecidableEq

def Handle.joinable : Handle → Bool
  | .running => true
  | .joined => false
  | .detached => false

/-- Where the worker is, once it is out of the loop of `run`. -/
inductive Leaving
  | looping
  | notifying
  | left
deriving DecidableEq

/-- Where the owner is in `stop`. -/
inductive Stopping
  | idle
  | asking
  | waiting
  | joining
  | detaching
deriving DecidableEq

/-- What a call of `stop` returned, and whether the worker had left `run` by then. -/
structure Answer where
  stopped : Bool
  workerLeft : Bool
deriving DecidableEq

/-- A channel with its worker's thread and its owner. The answers are not the code's. -/
structure Shutdown where
  channel : BulkChannel
  run : Leaving
  finished : Bool
  worker : Handle
  owner : Stopping
  answers : List Answer

namespace Shutdown

def create : Option Shutdown :=
  BulkChannel.create.map fun channel => ⟨channel, .looping, false, .running, .idle, []⟩

/-- `channel` is a step of the loop or of the engine's thread. The first step of `stop` is `stop`,
and each `wake` is one look at `finished`, with the grace over or not. -/
inductive Action
  | channel (action : BulkChannel.Action)
  | markFinished
  | leave
  | stop
  | askJoinable
  | wake (timedOut : Bool)
  | join
  | detach

def answer (s : Shutdown) (stopped : Bool) : Shutdown :=
  { s with owner := .idle, answers := s.answers ++ [⟨stopped, s.run = .left⟩] }

/-- No step where the thread is elsewhere. -/
def step (s : Shutdown) : Action → Option Shutdown
  | .channel .stop => none
  | .channel action => (s.channel.step action).map fun channel => { s with channel }
  | .markFinished =>
    if s.channel.worker = .ended ∧ s.run = .looping then
      some { s with run := .notifying, finished := true }
    else none
  | .leave => if s.run = .notifying then some { s with run := .left } else none
  | .stop =>
    if s.owner = .idle then
      (s.channel.step .stop).map fun channel => { s with channel, owner := .asking }
    else none
  | .askJoinable =>
    if s.owner = .asking then
      if ¬ s.worker.joinable then some (s.answer true) else some { s with owner := .waiting }
    else none
  | .wake timedOut =>
    if s.owner = .waiting then
      if s.finished then some { s with owner := .joining }
      else if timedOut then some { s with owner := .detaching }
      else some s
    else none
  | .join =>
    -- A join returns when the thread is done, and not before.
    if s.owner = .joining ∧ s.run = .left then some ({ s with worker := .joined }.answer true)
    else none
  | .detach =>
    if s.owner = .detaching then some ({ s with worker := .detached }.answer false) else none

def steps (s : Shutdown) (actions : List Action) : Option Shutdown := actions.foldlM step s

/-- Whenever `stop` returned true the worker had left `run`. -/
def Truthful (s : Shutdown) : Prop := ∀ a ∈ s.answers, a.stopped = true → a.workerLeft = true

/-- A worker that was let go of is asked about only when it has left. -/
def AsksInTime (s : Shutdown) (action : Action) : Prop :=
  action = .askJoinable → s.worker = .detached → s.run = .left

/-! ## One step -/

/-- No call of `stop` ends, and nobody joins the worker or lets go of it. -/
structure Quiet (s t : Shutdown) (action : Action) : Prop where
  answers : t.answers = s.answers
  worker : t.worker = s.worker
  left : s.run = .left → t.run = .left
  asked : action = .askJoinable → s.worker = .running
  owner : t.owner = .asking → action = .stop ∨ s.owner = .asking

section

variable {s t : Shutdown} {action : Action}

theorem joinable_iff {worker : Handle} : worker.joinable = true ↔ worker = .running := by
  unfold Handle.joinable
  split <;> simp

/-- Either a step is quiet, or it is the last one of a call of `stop`. -/
theorem step_cases (hs : s.step action = some t) :
    Quiet s t action ∨
    (action = .askJoinable ∧ s.worker ≠ .running ∧ t = s.answer true) ∨
    (action = .join ∧ s.run = .left ∧ t = { s with worker := .joined }.answer true) ∨
    (action = .detach ∧ t = { s with worker := .detached }.answer false) := by
  unfold step at hs
  split at hs
  · cases hs
  · obtain ⟨channel, -, rfl⟩ := Option.map_eq_some_iff.mp hs
    exact .inl ⟨rfl, rfl, id, nofun, .inr⟩
  · split at hs
    · rename_i hlooping
      cases hs
      exact .inl ⟨rfl, rfl, fun hleft => by simp [hleft] at hlooping, nofun, .inr⟩
    · cases hs
  · split at hs
    · cases hs
      exact .inl ⟨rfl, rfl, fun _ => rfl, nofun, .inr⟩
    · cases hs
  · split at hs
    · obtain ⟨channel, -, rfl⟩ := Option.map_eq_some_iff.mp hs
      exact .inl ⟨rfl, rfl, id, nofun, fun _ => .inl rfl⟩
    · cases hs
  · split at hs
    · split at hs
      · rename_i hgone
        cases hs
        exact .inr (.inl ⟨rfl, fun hrunning => hgone (joinable_iff.mpr hrunning), rfl⟩)
      · rename_i hjoinable
        cases hs
        exact .inl ⟨rfl, rfl, id, fun _ => joinable_iff.mp (not_not.mp hjoinable), nofun⟩
    · cases hs
  · split at hs
    · split at hs
      · cases hs
        exact .inl ⟨rfl, rfl, id, nofun, nofun⟩
      · split at hs
        · cases hs
          exact .inl ⟨rfl, rfl, id, nofun, nofun⟩
        · cases hs
          exact .inl ⟨rfl, rfl, id, nofun, .inr⟩
    · cases hs
  · split at hs
    · rename_i hjoins
      cases hs
      exact .inr (.inr (.inl ⟨rfl, hjoins.2, rfl⟩))
    · cases hs
  · split at hs
    · cases hs
      exact .inr (.inr (.inr ⟨rfl, rfl⟩))
    · cases hs

theorem truthful_answer (stopped : Bool) :
    (s.answer stopped).Truthful ↔ s.Truthful ∧ (stopped = true → s.run = .left) := by
  unfold Truthful answer
  simp only [List.mem_append, List.mem_singleton, or_imp, forall_and, forall_eq, decide_eq_true_eq]

/-- Who was joined has left. -/
def Inv (s : Shutdown) : Prop := s.worker = .joined → s.run = .left

theorem step_inv (hs : s.step action = some t) (h : Inv s) : Inv t := by
  obtain hquiet | ⟨-, -, rfl⟩ | ⟨-, hleft, rfl⟩ | ⟨-, rfl⟩ := step_cases hs
  · intro hjoined
    exact hquiet.left (h (hquiet.worker ▸ hjoined))
  · exact h
  · exact fun _ => hleft
  · exact nofun

theorem step_truthful (hs : s.step action = some t) (h : Inv s) :
    t.Truthful ↔ s.Truthful ∧ s.AsksInTime action := by
  obtain hquiet | ⟨rfl, hgone, rfl⟩ | ⟨rfl, hleft, rfl⟩ | ⟨rfl, rfl⟩ := step_cases hs
  · have htime : s.AsksInTime action := by
      intro hask hdetached
      rw [hquiet.asked hask] at hdetached
      cases hdetached
    unfold Truthful
    rw [hquiet.answers]
    exact (and_iff_left htime).symm
  · -- Who is not running was joined, and has left, or was let go of.
    have htime : s.AsksInTime .askJoinable ↔ s.run = .left := by
      unfold AsksInTime
      constructor
      · intro hdetached
        cases hworker : s.worker with
        | running => exact absurd hworker hgone
        | joined => exact h hworker
        | detached => exact hdetached rfl hworker
      · exact fun hleft _ _ => hleft
    rw [truthful_answer, htime]
    simp
  · have htime : s.AsksInTime .join := nofun
    rw [truthful_answer]
    exact ⟨fun ht => ⟨ht.1, htime⟩, fun ht => ⟨ht.1, fun _ => hleft⟩⟩
  · have htime : s.AsksInTime .detach := nofun
    rw [truthful_answer]
    exact ⟨fun ht => ⟨ht.1, htime⟩, fun ht => ⟨ht.1, nofun⟩⟩

theorem asks_in_time (hs : s.step action = some t) (h : s.owner = .asking → s.worker = .running) :
    s.AsksInTime action := by
  rintro rfl hdetached
  unfold step at hs
  by_cases howner : s.owner = .asking
  · rw [h howner] at hdetached
    cases hdetached
  · rw [if_neg howner] at hs
    cases hs

/-- Only `stop` begins to ask. -/
theorem step_asking (hs : s.step action = some t) (hother : action ≠ .stop)
    (h : s.owner = .asking → s.worker = .running) : t.owner = .asking → t.worker = .running := by
  obtain hquiet | ⟨-, -, rfl⟩ | ⟨-, -, rfl⟩ | ⟨-, rfl⟩ := step_cases hs
  · intro hasking
    rw [hquiet.worker]
    exact h ((hquiet.owner hasking).resolve_left hother)
  all_goals exact nofun

end

/-! ## All calls -/

theorem create_inv {fresh : Shutdown} (h : create = some fresh) : Inv fresh ∧ fresh.Truthful := by
  unfold create at h
  obtain ⟨channel, -, rfl⟩ := Option.map_eq_some_iff.mp h
  exact ⟨nofun, nofun⟩

/-- So it stays until somebody stops the channel again. -/
structure Once (s : Shutdown) : Prop where
  inv : Inv s
  truthful : s.Truthful
  asking : s.owner = .asking → s.worker = .running

theorem Once.steps {s t : Shutdown} {actions : List Action} (h : Once s)
    (hrun : s.steps actions = some t) (honce : .stop ∉ actions) : Once t := by
  refine Runs.run_invariant ?_ hrun h
  intro s action t haction h hs
  have hother : action ≠ .stop := by
    rintro rfl
    exact honce haction
  have htime := asks_in_time hs h.asking
  exact ⟨step_inv hs h.inv, (step_truthful hs h.inv).mpr ⟨h.truthful, htime⟩,
    step_asking hs hother h.asking⟩

/-- The backend stops a channel once, and lets go of it whatever `stop` returns. So it never frees
what a worker may still touch. -/
theorem disposeBulk_truthful {s t : Shutdown} {actions : List Action} (hinv : Inv s)
    (htruthful : s.Truthful) (hrunning : s.worker = .running)
    (hrun : s.steps (.stop :: actions) = some t) (honce : .stop ∉ actions) : t.Truthful := by
  obtain ⟨u, hu, hrest⟩ := Runs.run_cons.mp hrun
  have hworker : u.worker = .running := by
    obtain hquiet | ⟨hother, -⟩ | ⟨hother, -⟩ | ⟨hother, -⟩ := step_cases hu
    · rw [hquiet.worker, hrunning]
    all_goals cases hother
  have honce' : Once u :=
    ⟨step_inv hu hinv, (step_truthful hu hinv).mpr ⟨htruthful, nofun⟩, fun _ => hworker⟩
  exact (honce'.steps hrest honce).truthful

section

variable {fresh : Shutdown}

/-- The owner stops twice while the worker is in the loop, and the grace is over the first time. -/
def twice : List Action := [.stop, .askJoinable, .wake true, .detach, .stop, .askJoinable]

theorem steps_twice (h : create = some fresh) : ∃ s, fresh.steps twice = some s ∧
    s.answers = [⟨false, false⟩, ⟨true, false⟩] := by
  unfold create at h
  obtain ⟨channel, -, rfl⟩ := Option.map_eq_some_iff.mp h
  exact ⟨_, rfl, rfl⟩

/-- The worker sees the flag, leaves, and is joined. -/
def inTime : List Action :=
  [.stop, .askJoinable, .channel .look, .markFinished, .wake false, .leave, .join]

theorem steps_inTime (h : create = some fresh) : ∃ s, fresh.steps inTime = some s ∧
    s.answers = [⟨true, true⟩] := by
  unfold create at h
  obtain ⟨channel, hchannel, rfl⟩ := Option.map_eq_some_iff.mp h
  unfold BulkChannel.create at hchannel
  obtain ⟨ring, -, rfl⟩ := Option.map_eq_some_iff.mp hchannel
  exact ⟨_, rfl, rfl⟩

end

theorem exists_create : ∃ fresh, create = some fresh := by
  obtain ⟨channel, hchannel⟩ := BulkChannel.exists_create
  unfold create
  rw [hchannel]
  exact ⟨_, rfl⟩

/-- Over every run, `stop` says that the worker has stopped only where it has, exactly when no call
asks about a worker that an earlier call let go of and that is still in `run`. -/
theorem stop_truthful_iff {fresh s : Shutdown} {actions : List Action}
    (hcreate : create = some fresh) (hrun : fresh.steps actions = some s) :
    s.Truthful ↔ Runs.Along step AsksInTime fresh actions := by
  obtain ⟨hinv, htruthful⟩ := create_inv hcreate
  rw [Runs.good_iff_along (fun _ _ _ h hs => ⟨step_inv hs h, step_truthful hs h⟩) hrun hinv]
  exact and_iff_right htruthful

theorem stop_truthful_iff_in_time : ∃ fresh s, create = some fresh ∧
    fresh.steps inTime = some s ∧ s.answers = [⟨true, true⟩] ∧
      Runs.Along step AsksInTime fresh inTime := by
  obtain ⟨fresh, hcreate⟩ := exists_create
  obtain ⟨s, hrun, hanswers⟩ := steps_inTime hcreate
  have htruthful : s.Truthful := by
    unfold Truthful
    rw [hanswers]
    simp
  exact ⟨fresh, s, hcreate, hrun, hanswers, (stop_truthful_iff hcreate hrun).mp htruthful⟩

/-- A second call says that a worker has stopped which is still in `run`. -/
theorem stop_truthful_fails_at_second : ¬ ∀ fresh actions s, create = some fresh →
    fresh.steps actions = some s → s.Truthful := by
  intro h
  obtain ⟨fresh, hcreate⟩ := exists_create
  obtain ⟨s, hrun, hanswers⟩ := steps_twice hcreate
  have htruthful := h fresh twice s hcreate hrun
  unfold Truthful at htruthful
  rw [hanswers] at htruthful
  exact absurd (htruthful ⟨true, false⟩ (by simp) rfl) (by simp)

end Shutdown

end OakBarrels.Bulk
