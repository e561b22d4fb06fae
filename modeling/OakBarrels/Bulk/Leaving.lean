import OakBarrels.Bulk.Progress

/-!
# A channel that is asked to stop

What happens from there on: at most one chunk more goes out, the worker is out of `run` after seven
steps of its own, and the owner is out of `stop` after three of its own. Neither count includes the
looks at a worker that is still inside a write.
-/

open Octets

namespace OakBarrels.Bulk

/-- The worker's steps to the end of the loop, at most, once the flag is set. -/
def Worker.toEnd : Worker → Consumer → Nat
  | .top, _ => 1
  | .reading, .idle => 0
  | .reading, .loaded .. => 5
  | .reading, .copied .. => 4
  | .writing _, _ => 3
  | .counting _, _ => 2
  | .ended, _ => 0

/-- The bytes the worker can still write before it looks at the flag. -/
def Worker.ahead : Worker → Consumer → Nat
  | .reading, .loaded capacity _ _ held => min capacity.toNat held
  | .reading, .copied _ out .. => out.length
  | .writing chunk, _ => chunk.length
  | _, _ => 0

/-- And from there out of `run`. -/
def Leaving.toLeave : Leaving → Nat
  | .looping => 2
  | .notifying => 1
  | .left => 0

/-- The owner's steps to the end of `stop`, at most. -/
def Stopping.toReturn : Stopping → Nat
  | .idle => 0
  | .asking => 3
  | .waiting => 2
  | .joining => 1
  | .detaching => 1

namespace BulkChannel

variable {s t : BulkChannel} {action : Action}

def ahead (s : BulkChannel) : Nat := s.worker.ahead s.queue.consumer

def toEnd (s : BulkChannel) : Nat := s.worker.toEnd s.queue.consumer

theorem sides_sameWorker (h : SameWorker s t) : t.ahead = s.ahead ∧ t.toEnd = s.toEnd := by
  unfold ahead toEnd
  rw [h.worker, h.consumer]
  exact ⟨rfl, rfl⟩

/-- The worker reads no more at a time than it has room for. -/
theorem ahead_worker (hmoves : WorkerMoves s t) : t.ahead ≤ max kDrainBytes.toNat s.ahead := by
  unfold ahead
  cases hmoves with
  | leaves _ _ hworker | finds _ _ _ _ _ _ _ hworker | writes _ _ hworker | fails _ _ hworker
  | counts _ _ hworker =>
    rw [hworker]
    exact Nat.zero_le _
  | looks tail head _ _ hworker hconsumer =>
    rw [hworker, hconsumer]
    simp only [Worker.ahead]
    omega
  | copies capacity tail head taken held out hreading hloaded hworker hcopied hlength =>
    rw [hreading, hloaded, hworker, hcopied]
    simp only [Worker.ahead]
    omega
  | takes capacity tail taken held out hreading hcopied hworker =>
    rw [hreading, hcopied]
    rcases hworker with ⟨-, hworker⟩ | hworker
    · rw [hworker]
      exact Nat.zero_le _
    · rw [hworker]
      exact Nat.le_max_right _ _

theorem Inv.ahead_step (h : Inv s) (hs : s.step action = some t) (hle : s.ahead ≤ kDrainBytes.toNat) :
    t.ahead ≤ kDrainBytes.toNat := by
  obtain ⟨hsame, -⟩ | ⟨hmoves, -⟩ | ⟨rfl, -⟩ := h.step_cases hs
  · rw [(sides_sameWorker hsame).1]
    exact hle
  · exact (ahead_worker hmoves).trans (max_le le_rfl hle)
  · exact hle

/-- What is written once the flag is set was ahead then. -/
theorem written_worker (hmoves : WorkerMoves s t) (hstopping : s.stopping = true) :
    ∃ last, t.written = s.written ++ last ∧ last.length + t.ahead ≤ s.ahead ∧ t.toEnd + 1 ≤ s.toEnd := by
  unfold ahead toEnd
  cases hmoves with
  | looks _ _ _ hgoing =>
    rw [hgoing] at hstopping
    cases hstopping
  | leaves htop _ hworker hsame | counts _ htop hworker hsame =>
    refine ⟨[], by simp [hsame.written], ?_⟩
    rw [htop, hworker]
    simp [Worker.ahead, Worker.toEnd]
  | finds _ _ _ _ hreading hloaded _ hworker hsame =>
    refine ⟨[], by simp [hsame.written], ?_⟩
    rw [hreading, hloaded, hworker]
    simp [Worker.ahead, Worker.toEnd]
  | copies _ _ _ _ _ _ hreading hloaded hworker hcopied hlength hsame =>
    refine ⟨[], by simp [hsame.written], ?_⟩
    rw [hreading, hloaded, hworker, hcopied]
    simp [Worker.ahead, Worker.toEnd, hlength]
  | takes _ _ _ _ _ hreading hcopied hworker hsame =>
    refine ⟨[], by simp [hsame.written], ?_⟩
    rw [hreading, hcopied]
    rcases hworker with ⟨-, hworker⟩ | hworker
    · rw [hworker]
      simp [Worker.ahead, Worker.toEnd]
    · rw [hworker]
      simp [Worker.ahead, Worker.toEnd]
  | writes chunk hwriting hworker _ _ hwritten =>
    refine ⟨chunk, hwritten, ?_⟩
    rw [hwriting, hworker]
    simp [Worker.ahead, Worker.toEnd]
  | fails chunk hwriting hworker _ _ hwritten =>
    refine ⟨[], by simp [hwritten], ?_⟩
    rw [hwriting, hworker]
    simp [Worker.ahead, Worker.toEnd]

theorem WorkerMoves.stopping_kept (hmoves : WorkerMoves s t) : t.stopping = s.stopping := by
  cases hmoves with
  | leaves _ _ _ hsame => exact hsame.stopping
  | looks _ _ _ _ _ _ hsame => exact hsame.stopping
  | finds _ _ _ _ _ _ _ _ hsame => exact hsame.stopping
  | copies _ _ _ _ _ _ _ _ _ _ _ hsame => exact hsame.stopping
  | takes _ _ _ _ _ _ _ _ hsame => exact hsame.stopping
  | counts _ _ _ hsame => exact hsame.stopping
  | fails _ _ _ hstopping => exact hstopping
  | writes _ _ _ hstopping => exact hstopping

/-- A step of a channel that is asked to stop. -/
structure Draining (s t : BulkChannel) (mine : Bool) : Prop where
  stopping : t.stopping = true
  written : ∃ last, t.written = s.written ++ last ∧ last.length + t.ahead ≤ s.ahead
  toEnd : t.toEnd + mine.toNat ≤ s.toEnd

theorem Inv.draining (h : Inv s) (hs : s.step action = some t) (hstopping : s.stopping = true) :
    Draining s t action.isWorker := by
  obtain ⟨hsame, hother⟩ | ⟨hmoves, hmine⟩ | ⟨rfl, hother⟩ := h.step_cases hs
  · obtain ⟨hahead, htoEnd⟩ := sides_sameWorker hsame
    rw [hother]
    exact ⟨hsame.stopping.trans hstopping, ⟨[], by simp [hsame.written], by simp [hahead]⟩, htoEnd.le⟩
  · obtain ⟨last, hwritten, hahead, htoEnd⟩ := written_worker hmoves hstopping
    rw [hmine]
    exact ⟨hmoves.stopping_kept.trans hstopping, ⟨last, hwritten, hahead⟩, htoEnd⟩
  · rw [hother]
    exact ⟨rfl, ⟨[], by simp, by simp [ahead]⟩, le_rfl⟩

end BulkChannel

namespace Shutdown

/-- The steps of the worker's thread, in the loop and out of it. -/
def Action.isWorker : Action → Bool
  | .channel action => action.isWorker
  | .markFinished => true
  | .leave => true
  | _ => false

/-- The steps of the owner that do not just look again at a worker inside a write. -/
def Action.isOwner : Action → Bool
  | .stop => true
  | .askJoinable => true
  | .wake timedOut => timedOut
  | .join => true
  | .detach => true
  | _ => false

variable {s t : Shutdown} {action : Action}

/-! ## The worker -/

/-- A step as it looks from the worker's thread. -/
inductive Turns (s t : Shutdown) : Action → Prop
  | loops (step : BulkChannel.Action) : s.channel.step step = some t.channel → t.run = s.run →
      Turns s t (.channel step)
  | finishes : s.channel.worker = .ended → s.run = .looping → t.run = .notifying →
      t.channel = s.channel → Turns s t .markFinished
  | leaves : s.run = .notifying → t.run = .left → t.channel = s.channel → Turns s t .leave
  | asks : s.channel.step .stop = some t.channel → t.run = s.run → Turns s t .stop
  | owns (action : Action) : action.isWorker = false → t.run = s.run → t.channel = s.channel →
      Turns s t action

theorem step_channel {action : BulkChannel.Action} (hs : s.step (.channel action) = some t) :
    ∃ channel, s.channel.step action = some channel ∧ t = { s with channel } := by
  have hchannel : (s.channel.step action).map (fun channel => { s with channel }) = some t := by
    cases action with
    | stop => cases hs
    | offer | copyIn | publishHead | countDropped | look | copyOut | publishTail | write
    | countForwarded => exact hs
  obtain ⟨channel, hstep, rfl⟩ := Option.map_eq_some_iff.mp hchannel
  exact ⟨channel, hstep, rfl⟩

theorem step_turns (hs : s.step action = some t) : Turns s t action := by
  cases action with
  | channel action =>
    obtain ⟨channel, hstep, rfl⟩ := step_channel hs
    exact .loops action hstep rfl
  | markFinished =>
    simp only [step] at hs
    split at hs
    · rename_i h
      cases hs
      exact .finishes h.1 h.2 rfl rfl
    · cases hs
  | leave =>
    simp only [step] at hs
    split at hs
    · rename_i h
      cases hs
      exact .leaves h rfl rfl
    · cases hs
  | stop =>
    simp only [step] at hs
    split at hs
    · obtain ⟨channel, hstep, rfl⟩ := Option.map_eq_some_iff.mp hs
      exact .asks hstep rfl
    · cases hs
  | askJoinable =>
    simp only [step] at hs
    split at hs
    · split at hs
      · cases hs
        exact .owns _ rfl rfl rfl
      · cases hs
        exact .owns _ rfl rfl rfl
    · cases hs
  | wake timedOut =>
    simp only [step] at hs
    split at hs
    · split at hs
      · cases hs
        exact .owns _ rfl rfl rfl
      · split at hs
        · cases hs
          exact .owns _ rfl rfl rfl
        · cases hs
          exact .owns _ rfl rfl rfl
    · cases hs
  | join =>
    simp only [step] at hs
    split at hs
    · cases hs
      exact .owns _ rfl rfl rfl
    · cases hs
  | detach =>
    simp only [step] at hs
    split at hs
    · cases hs
      exact .owns _ rfl rfl rfl
    · cases hs

/-- The worker is out of the loop when it marks itself finished. -/
structure Reached (s : Shutdown) : Prop where
  channel : s.channel.Inv
  ahead : s.channel.ahead ≤ kDrainBytes.toNat
  run : s.run ≠ .looping → s.channel.worker = .ended

/-- Who has ended stays so. -/
theorem ended_stays {c d : BulkChannel} {action : BulkChannel.Action} (h : c.Inv)
    (hs : c.step action = some d) (hended : c.worker = .ended) : d.worker = .ended := by
  obtain ⟨hsame, -⟩ | ⟨hmoves, -⟩ | ⟨rfl, -⟩ := h.step_cases hs
  · rw [hsame.worker]
    exact hended
  · cases hmoves with
    | leaves hworker | looks _ _ hworker | finds _ _ _ _ hworker | copies _ _ _ _ _ _ hworker
    | takes _ _ _ _ _ hworker | writes _ hworker | fails _ hworker | counts _ hworker =>
      rw [hworker] at hended
      cases hended
  · exact hended

theorem Reached.step (h : Reached s) (hs : s.step action = some t) : Reached t := by
  obtain ⟨hchannel, hahead, hrun⟩ := h
  cases step_turns hs with
  | loops step hstep hsame =>
    refine ⟨hchannel.step hstep, hchannel.ahead_step hstep hahead, ?_⟩
    rw [hsame]
    exact fun hout => ended_stays hchannel hstep (hrun hout)
  | asks hstep hsame =>
    refine ⟨hchannel.step hstep, hchannel.ahead_step hstep hahead, ?_⟩
    rw [hsame]
    exact fun hout => ended_stays hchannel hstep (hrun hout)
  | finishes hended _ _ hsame =>
    rw [← hsame] at hchannel hahead hended
    exact ⟨hchannel, hahead, fun _ => hended⟩
  | leaves hnotifying _ hsame =>
    have hended := hrun (by simp [hnotifying])
    rw [← hsame] at hchannel hahead hended
    exact ⟨hchannel, hahead, fun _ => hended⟩
  | owns _ _ hrun' hsame =>
    rw [← hrun', ← hsame] at hrun
    rw [← hsame] at hchannel hahead
    exact ⟨hchannel, hahead, hrun⟩

theorem create_reached {fresh : Shutdown} (hcreate : create = some fresh)
    (hs : Runs.Reaches step fresh s) : Reached s := by
  refine hs.invariant ?_ fun _ _ _ h hstep => h.step hstep
  unfold create at hcreate
  obtain ⟨channel, hchannel, rfl⟩ := Option.map_eq_some_iff.mp hcreate
  refine ⟨BulkChannel.create_inv hchannel, ?_, fun hout => absurd rfl hout⟩
  obtain ⟨ring, -, rfl⟩ := Option.map_eq_some_iff.mp hchannel
  exact Nat.zero_le _

/-- And the owner has asked it to stop. -/
structure Asked (s : Shutdown) : Prop extends Reached s where
  stopping : s.channel.stopping = true

theorem Asked.step (h : Asked s) (hs : s.step action = some t) : Asked t := by
  refine ⟨h.toReached.step hs, ?_⟩
  cases step_turns hs with
  | loops step hstep => exact (h.channel.draining hstep h.stopping).stopping
  | asks hstep => exact (h.channel.draining hstep h.stopping).stopping
  | finishes _ _ _ hsame | leaves _ _ hsame | owns _ _ _ hsame =>
    rw [hsame]
    exact h.stopping

/-- What goes out in a step was ahead before it. -/
theorem Asked.written_step (h : Asked s) (hs : s.step action = some t) :
    ∃ last, t.channel.written = s.channel.written ++ last ∧
      last.length + t.channel.ahead ≤ s.channel.ahead := by
  cases step_turns hs with
  | loops step hstep => exact (h.channel.draining hstep h.stopping).written
  | asks hstep => exact (h.channel.draining hstep h.stopping).written
  | finishes _ _ _ hsame | leaves _ _ hsame | owns _ _ _ hsame =>
    rw [hsame]
    exact ⟨[], by simp, by simp⟩

theorem Asked.written_run {actions : List Action} (h : Asked s) (hrun : s.steps actions = some t) :
    ∃ last, t.channel.written = s.channel.written ++ last ∧
      last.length + t.channel.ahead ≤ s.channel.ahead := by
  induction actions generalizing s with
  | nil =>
    obtain rfl : s = t := by simpa [steps] using hrun
    exact ⟨[], by simp, by simp⟩
  | cons action rest ih =>
    obtain ⟨u, hu, hrest⟩ := Runs.run_cons.mp hrun
    obtain ⟨first, hfirst, hahead⟩ := h.written_step hu
    obtain ⟨last, hlast, hahead'⟩ := ih (h.step hu) hrest
    refine ⟨first ++ last, by rw [hlast, hfirst, List.append_assoc], ?_⟩
    rw [List.length_append]
    omega

/-- The worker comes nearer to the end of `run`, and nobody holds it up. -/
theorem leaving_nears : Runs.Nears step Asked (fun s => s.run = .left) Action.isWorker
    (fun s => s.channel.toEnd + s.run.toLeave) where
  inv _ _ _ h hs := h.step hs
  stays s action t _ hleft hs := by
    cases step_turns hs with
    | loops _ _ hsame | asks _ hsame | owns _ _ hsame => exact hsame.trans hleft
    | leaves _ hleft' => exact hleft'
    | finishes _ hlooping =>
      rw [hlooping] at hleft
      cases hleft
  nears s action t h _ hs hdone' := by
    cases step_turns hs with
    | loops step hstep hsame =>
      have hless := (h.channel.draining hstep h.stopping).toEnd
      rw [hsame]
      simp only [Action.isWorker]
      omega
    | asks hstep hsame =>
      have hless := (h.channel.draining hstep h.stopping).toEnd
      rw [hsame]
      simp only [Action.isWorker, Bool.toNat_false]
      omega
    | finishes _ hlooping hnotifying hsame =>
      rw [hlooping, hnotifying, hsame]
      exact le_rfl
    | leaves _ hleft => exact absurd hleft hdone'
    | owns _ hother hrun hsame =>
      rw [hrun, hsame, hother]
      exact le_rfl
  away s _ hdone := by
    cases hrun : s.run with
    | left => exact absurd hrun hdone
    | looping | notifying => simp only [Leaving.toLeave]; omega

theorem toEnd_le (c : BulkChannel) : c.toEnd ≤ 5 := by
  unfold BulkChannel.toEnd
  cases c.worker with
  | top | writing | counting | ended => simp [Worker.toEnd]
  | reading => cases c.queue.consumer <;> simp [Worker.toEnd]

/-- The worker's step that is next, until it has left. -/
theorem Reached.worker_goes (h : Reached s) (hrun : s.run ≠ .left) :
    ∃ action t, action.isWorker = true ∧ s.step action = some t := by
  cases hcase : s.run with
  | left => exact absurd hcase hrun
  | notifying => exact ⟨.leave, _, rfl, by simp only [Shutdown.step, hcase, if_true]; rfl⟩
  | looping =>
    by_cases hended : s.channel.worker = .ended
    · exact ⟨.markFinished, _, rfl, by simp only [Shutdown.step, hcase, hended, and_self, if_true]; rfl⟩
    · obtain ⟨action, channel, hmine, hstep⟩ := h.channel.worker_goes hended
      refine ⟨.channel action, { s with channel }, hmine, ?_⟩
      cases action with
      | stop => cases hmine
      | offer | copyIn | publishHead | countDropped => cases hmine
      | look | copyOut | publishTail | write | countForwarded =>
        simp only [Shutdown.step, hstep, Option.map_some]

theorem fresh_stops {fresh : Shutdown} (hcreate : create = some fresh) :
    ∃ s, fresh.step .stop = some s ∧ s.channel.stopping = true ∧ s.owner ≠ .idle ∧ s.answers = [] := by
  obtain ⟨channel, -, rfl⟩ := Option.map_eq_some_iff.mp hcreate
  exact ⟨_, rfl, rfl, by simp, rfl⟩

/-- **A worker that is asked to stop leaves.** From the moment the flag is set at most one chunk of
16 KiB more is written; where every write to the endpoint returns, one way or the other, the worker's
thread can make its next step until it has left `run`; and it has left it once it has made seven,
whatever the engine offers and the owner does. -/
theorem stop_ends_worker {fresh s : Shutdown} (hcreate : create = some fresh)
    (hs : Runs.Reaches step fresh s) (hstopping : s.channel.stopping = true) :
    ∀ (actions : List Action) (t : Shutdown), s.steps actions = some t →
      (∃ last, t.channel.written = s.channel.written ++ last ∧ last.length ≤ 16384) ∧
        (t.run ≠ .left → ∃ action u, action.isWorker = true ∧ t.step action = some u) ∧
        (7 ≤ actions.countP Action.isWorker → t.run = .left) := by
  intro actions t hrun
  have h : Asked s := ⟨create_reached hcreate hs, hstopping⟩
  have ht : Reached t := Runs.run_invariant (fun _ _ _ _ h hs => h.step hs) hrun h.toReached
  obtain ⟨last, hlast, hahead⟩ := h.written_run hrun
  have hle := h.ahead
  rw [BulkChannel.kDrainBytes_toNat] at hle
  refine ⟨⟨last, hlast, by omega⟩, ht.worker_goes, fun hsteps => ?_⟩
  refine leaving_nears.done hrun h (le_trans ?_ hsteps)
  have htoEnd := toEnd_le s.channel
  cases s.run <;> simp only [Leaving.toLeave] <;> omega

theorem stop_ends_worker_fresh : ∃ fresh s, create = some fresh ∧ fresh.step .stop = some s ∧
    ∀ (actions : List Action) (t : Shutdown), s.steps actions = some t →
      7 ≤ actions.countP Action.isWorker → t.run = .left := by
  obtain ⟨fresh, hcreate⟩ := exists_create
  obtain ⟨s, hs, hstopping, -⟩ := fresh_stops hcreate
  have hleaves := stop_ends_worker hcreate (.one _ hs) hstopping
  exact ⟨fresh, s, hcreate, hs, fun actions t hrun => (hleaves actions t hrun).2.2⟩

/-! ## The owner -/

/-- A step of a call of `stop`, which goes on, no farther from its return. -/
structure Goes (s t : Shutdown) (mine : Bool) : Prop where
  busy : t.owner ≠ .idle
  answers : t.answers = s.answers
  left : t.owner.toReturn + mine.toNat ≤ s.owner.toReturn

theorem owner_step (hs : s.step action = some t) (hbusy : s.owner ≠ .idle) :
    s.answers.length < t.answers.length ∨ Goes s t action.isOwner := by
  have hreturns : ∀ (u : Shutdown) (stopped : Bool), u.answers = s.answers →
      s.answers.length < (u.answer stopped).answers.length := by
    intro u stopped hsame
    simp [answer, hsame]
  cases action with
  | channel action =>
    obtain ⟨channel, -, rfl⟩ := step_channel hs
    exact .inr ⟨hbusy, rfl, le_rfl⟩
  | markFinished =>
    simp only [step] at hs
    split at hs
    · cases hs
      exact .inr ⟨hbusy, rfl, le_rfl⟩
    · cases hs
  | leave =>
    simp only [step] at hs
    split at hs
    · cases hs
      exact .inr ⟨hbusy, rfl, le_rfl⟩
    · cases hs
  | stop =>
    simp only [step, if_neg hbusy] at hs
    cases hs
  | askJoinable =>
    simp only [step] at hs
    split at hs
    · rename_i hasking
      split at hs
      · cases hs
        exact .inl (hreturns s true rfl)
      · cases hs
        exact .inr ⟨by simp, rfl, by rw [hasking]; exact le_rfl⟩
    · cases hs
  | wake timedOut =>
    simp only [step] at hs
    split at hs
    · rename_i hwaiting
      split at hs
      · cases hs
        refine .inr ⟨by simp, rfl, ?_⟩
        rw [hwaiting]
        cases timedOut <;> simp [Stopping.toReturn, Action.isOwner]
      · split at hs
        · rename_i hover
          cases hs
          exact .inr ⟨by simp, rfl, by rw [hwaiting, hover]; exact le_rfl⟩
        · rename_i hwithin
          cases hs
          rw [Bool.not_eq_true] at hwithin
          exact .inr ⟨hbusy, rfl, by rw [hwithin]; exact le_rfl⟩
    · cases hs
  | join =>
    simp only [step] at hs
    split at hs
    · cases hs
      exact .inl (hreturns { s with worker := .joined } true rfl)
    · cases hs
  | detach =>
    simp only [step] at hs
    split at hs
    · cases hs
      exact .inl (hreturns { s with worker := .detached } false rfl)
    · cases hs

theorem answers_le (hs : s.step action = some t) : s.answers.length ≤ t.answers.length := by
  obtain hquiet | ⟨-, -, rfl⟩ | ⟨-, -, rfl⟩ | ⟨-, rfl⟩ := step_cases hs
  · exact (congrArg List.length hquiet.answers).ge
  all_goals simp [answer]

/-- The owner comes nearer to its return, and nobody holds it up. -/
theorem stop_nears (returned : Nat) : Runs.Nears step
    (fun s => returned ≤ s.answers.length ∧ (s.answers.length = returned → s.owner ≠ .idle))
    (fun s => returned < s.answers.length) Action.isOwner (fun s => s.owner.toReturn) where
  inv s action t hinv hs := by
    obtain ⟨hless, hbusy⟩ := hinv
    have hle := answers_le hs
    refine ⟨hless.trans hle, fun hsame => ?_⟩
    rcases owner_step hs (hbusy (by omega)) with hreturns | hgoes
    · omega
    · exact hgoes.busy
  stays _ _ _ _ hdone hs := hdone.trans_le (answers_le hs)
  nears s action t hinv hdone hs hdone' := by
    obtain ⟨hless, hbusy⟩ := hinv
    rcases owner_step hs (hbusy (by omega)) with hreturns | hgoes
    · omega
    · exact hgoes.left
  away s hinv hdone := by
    obtain ⟨hless, hbusy⟩ := hinv
    cases howner : s.owner with
    | idle => exact absurd howner (hbusy (by omega))
    | asking | waiting | joining | detaching => simp only [Stopping.toReturn]; omega

/-- Only a worker that is out of the loop is joined. -/
def Joins (s : Shutdown) : Prop :=
  (s.finished = true → s.run ≠ .looping) ∧ (s.owner = .joining → s.run ≠ .looping)

theorem Joins.step (h : Joins s) (hs : s.step action = some t) : Joins t := by
  obtain ⟨hfinished, hjoining⟩ := h
  cases action with
  | channel action =>
    obtain ⟨channel, -, rfl⟩ := step_channel hs
    exact ⟨hfinished, hjoining⟩
  | markFinished =>
    simp only [Shutdown.step] at hs
    split at hs
    · cases hs
      exact ⟨by simp, by simp⟩
    · cases hs
  | leave =>
    simp only [Shutdown.step] at hs
    split at hs
    · cases hs
      exact ⟨by simp, by simp⟩
    · cases hs
  | stop =>
    simp only [Shutdown.step] at hs
    split at hs
    · obtain ⟨channel, -, rfl⟩ := Option.map_eq_some_iff.mp hs
      exact ⟨hfinished, by simp⟩
    · cases hs
  | askJoinable =>
    simp only [Shutdown.step] at hs
    split at hs
    · split at hs
      · cases hs
        exact ⟨hfinished, by simp [answer]⟩
      · cases hs
        exact ⟨hfinished, by simp⟩
    · cases hs
  | wake timedOut =>
    simp only [Shutdown.step] at hs
    split at hs
    · rename_i hwaiting
      split at hs
      · rename_i hdone
        cases hs
        exact ⟨hfinished, fun _ => hfinished hdone⟩
      · split at hs
        · cases hs
          exact ⟨hfinished, by simp⟩
        · cases hs
          exact ⟨hfinished, hjoining⟩
    · cases hs
  | join =>
    simp only [Shutdown.step] at hs
    split at hs
    · cases hs
      exact ⟨hfinished, by simp [answer]⟩
    · cases hs
  | detach =>
    simp only [Shutdown.step] at hs
    split at hs
    · cases hs
      exact ⟨hfinished, by simp [answer]⟩
    · cases hs

/-- The owner's next step, or the worker's last. -/
theorem Joins.owner_goes (h : Joins s) (hbusy : s.owner ≠ .idle) :
    ∃ action t, (action.isOwner = true ∨ action = .leave) ∧ s.step action = some t := by
  cases howner : s.owner with
  | idle => exact absurd howner hbusy
  | asking =>
    by_cases hgone : s.worker.joinable = true
    · exact ⟨.askJoinable, _, .inl rfl, by
        simp only [Shutdown.step, howner, hgone, not_true_eq_false, if_true, if_false]; rfl⟩
    · exact ⟨.askJoinable, _, .inl rfl, by
        simp only [Shutdown.step, howner, hgone, if_true]; rfl⟩
  | waiting =>
    cases hfinished : s.finished with
    | true =>
      exact ⟨.wake true, _, .inl rfl, by simp only [Shutdown.step, howner, hfinished, if_true]; rfl⟩
    | false =>
      exact ⟨.wake true, _, .inl rfl, by
        simp only [Shutdown.step, howner, hfinished, Bool.false_eq_true, if_true, if_false]; rfl⟩
  | joining =>
    cases hrun : s.run with
    | looping => exact absurd hrun (h.2 howner)
    | notifying => exact ⟨.leave, _, .inr rfl, by simp only [Shutdown.step, hrun, if_true]; rfl⟩
    | left =>
      exact ⟨.join, _, .inl rfl, by simp only [Shutdown.step, howner, hrun, and_self, if_true]; rfl⟩
  | detaching => exact ⟨.detach, _, .inl rfl, by simp only [Shutdown.step, howner, if_true]; rfl⟩

/-- **`stop` returns.** A call of `stop` can always go on, but for a worker that is out of the loop and
has only to return from `run`; and it has returned once its thread has made three more steps, the looks
at an unfinished worker within the grace not counted, whatever the engine and the worker do. -/
theorem stop_returns {fresh s : Shutdown} (hcreate : create = some fresh)
    (hs : Runs.Reaches step fresh s) (hcalled : s.owner ≠ .idle) :
    ∀ (actions : List Action) (t : Shutdown), s.steps actions = some t →
      (t.owner ≠ .idle → ∃ action u, (action.isOwner = true ∨ action = .leave) ∧
        t.step action = some u) ∧
        (3 ≤ actions.countP Action.isOwner → s.answers.length < t.answers.length) := by
  intro actions t hrun
  have hfresh : Joins fresh := by
    obtain ⟨channel, -, rfl⟩ := Option.map_eq_some_iff.mp hcreate
    exact ⟨by simp, by simp⟩
  have hjoins : Joins s := hs.invariant hfresh fun _ _ _ h hstep => h.step hstep
  have ht : Joins t := Runs.run_invariant (fun _ _ _ _ h hs => h.step hs) hrun hjoins
  refine ⟨ht.owner_goes, fun hsteps => ?_⟩
  refine (stop_nears s.answers.length).done hrun ⟨le_rfl, fun _ => hcalled⟩ (le_trans ?_ hsteps)
  cases s.owner <;> simp [Stopping.toReturn]

theorem stop_returns_fresh : ∃ fresh s, create = some fresh ∧ fresh.step .stop = some s ∧
    ∀ (actions : List Action) (t : Shutdown), s.steps actions = some t →
      3 ≤ actions.countP Action.isOwner → 0 < t.answers.length := by
  obtain ⟨fresh, hcreate⟩ := exists_create
  obtain ⟨s, hs, -, hcalled, hnone⟩ := fresh_stops hcreate
  have hreturns := stop_returns hcreate (.one _ hs) hcalled
  refine ⟨fresh, s, hcreate, hs, fun actions t hrun hsteps => ?_⟩
  exact (Nat.zero_le _).trans_lt ((hreturns actions t hrun).2 hsteps)

end Shutdown

end OakBarrels.Bulk
