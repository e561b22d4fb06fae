import OakBarrels.Bulk.DeadChannel
import OakBarrels.Bulk.Stopping
import OakBarrels.Lib.Nearing

/-!
# Whoever waits for whom

The engine's thread waits for nobody: a call of `receive` returns after three more steps of its own.
What it has put into the ring is written after some steps of the worker, and a worker that is asked to
stop leaves after some. Each count holds however the steps of the others fall between.
-/

open Octets

namespace OakBarrels.Bulk

/-- The steps that a call of `receive` has still to make, at most. -/
def Receive.left : Receive → Producer → Nat
  | .idle, _ => 0
  | .writing _, .idle => 0
  | .writing _, .loaded .. => 3
  | .writing _, .copied .. => 2
  | .counting .., _ => 1

/-- How many rounds of the worker's loop so many bytes take. -/
def rounds (bytes : Nat) : Nat := (bytes + (kDrainBytes.toNat - 1)) / kDrainBytes.toNat

/-- How many steps of the worker stand between it and the bytes it has not read. -/
def Worker.away (unread : Nat) : Worker → Consumer → Nat
  | .top, _ => 5 * rounds unread
  | .reading, .idle => 0
  | .reading, .loaded capacity _ _ held => 5 * rounds (unread - min capacity.toNat held) + 4
  | .reading, .copied _ out .. => 5 * rounds (unread - out.length) + 3
  | .writing _, _ => 5 * rounds unread + 2
  | .counting _, _ => 5 * rounds unread + 1
  | .ended, _ => 0

namespace BulkChannel

/-- The steps of the engine's thread. -/
def Action.isEngine : Action → Bool
  | .offer _ => true
  | .copyIn => true
  | .publishHead => true
  | .countDropped => true
  | _ => false

/-- The steps of the worker. -/
def Action.isWorker : Action → Bool
  | .look => true
  | .copyOut => true
  | .publishTail => true
  | .write _ => true
  | .countForwarded => true
  | _ => false

/-! ## Each thread on its own -/

/-- The worker's side, which the engine leaves alone; on its own it only adds. -/
structure SameWorker (s t : BulkChannel) : Prop where
  worker : t.worker = s.worker
  stopping : t.stopping = s.stopping
  broken : t.broken = s.broken
  written : t.written = s.written
  consumer : t.queue.consumer = s.queue.consumer
  reads : t.queue.reads = s.queue.reads
  offers : s.offers <+: t.offers
  writes : s.queue.writes <+: t.queue.writes

/-- The engine's side, which the others leave alone. -/
structure SameEngine (s t : BulkChannel) : Prop where
  engine : t.engine = s.engine
  offers : t.offers = s.offers
  producer : t.queue.producer = s.queue.producer
  writes : t.queue.writes = s.queue.writes

section

variable {s t : BulkChannel} {action : Action}

theorem sameWorker_afterWrite {data : Span} {queue : System} (hw : System.Writes data s.queue queue) :
    SameWorker s (s.afterWrite data queue) := by
  obtain ⟨hqueue, hworker, -, hwritten, hoffers⟩ := afterWrite_keeps s data queue
  have hwrites : s.queue.writes <+: queue.writes := by
    obtain ⟨-, -, ⟨hsame, -⟩ | ⟨free, taken, hcall, -⟩⟩ := hw
    · rw [hsame]
    · rw [hcall]
      exact List.prefix_append _ _
  obtain ⟨hreads, hconsumer, -⟩ := hw
  have hflags : (s.afterWrite data queue).stopping = s.stopping ∧
      (s.afterWrite data queue).broken = s.broken := by
    unfold afterWrite
    simp only
    split
    · exact ⟨rfl, rfl⟩
    · split
      · exact ⟨rfl, rfl⟩
      · exact ⟨rfl, rfl⟩
  refine ⟨hworker, hflags.1, hflags.2, hwritten, ?_, ?_, hoffers, ?_⟩
  · rw [hqueue, hconsumer]
  · rw [hqueue, hreads]
  · rw [hqueue]
    exact hwrites

theorem sameEngine_afterRead {queue : System} (hr : System.Reads s.queue queue) :
    SameEngine s (s.afterRead queue) := by
  obtain ⟨hwrites, hproducer, -⟩ := hr
  unfold afterRead
  simp only
  split
  · exact ⟨rfl, rfl, hproducer, hwrites⟩
  · split
    · exact ⟨rfl, rfl, hproducer, hwrites⟩
    · exact ⟨rfl, rfl, hproducer, hwrites⟩

theorem Inv.sameWorker (h : Inv s) (hs : s.step action = some t) (hmine : action.isEngine = true) :
    SameWorker s t := by
  cases action with
  | offer data =>
    simp only [BulkChannel.step] at hs
    split at hs
    · cases data with
      | none =>
        cases hs
        exact ⟨rfl, rfl, rfl, rfl, rfl, rfl, List.prefix_rfl, List.prefix_rfl⟩
      | some data =>
        simp only at hs
        split at hs
        · cases hs
          exact ⟨rfl, rfl, rfl, rfl, rfl, rfl, List.prefix_rfl, List.prefix_rfl⟩
        · rename_i hbytes
          obtain ⟨queue, hqueue, rfl⟩ := Option.map_eq_some_iff.mp hs
          obtain ⟨hwrites, hreads, hconsumer, -⟩ := System.write_begins hbytes hqueue
          exact ⟨rfl, rfl, rfl, rfl, hconsumer, hreads, List.prefix_rfl, hwrites ▸ List.prefix_rfl⟩
    · cases hs
  | copyIn =>
    simp only [BulkChannel.step] at hs
    split at hs
    · rename_i data hwriting
      obtain ⟨queue, hqueue, rfl⟩ := Option.map_eq_some_iff.mp hs
      have hcarries := h.engine
      rw [hwriting] at hcarries
      exact sameWorker_afterWrite (System.copyIn_writes hcarries hqueue)
    · cases hs
  | publishHead =>
    simp only [BulkChannel.step] at hs
    split at hs
    · rename_i data hwriting
      obtain ⟨queue, hqueue, rfl⟩ := Option.map_eq_some_iff.mp hs
      have hcarries := h.engine
      rw [hwriting] at hcarries
      exact sameWorker_afterWrite (System.publishHead_writes hcarries hqueue)
    · cases hs
  | countDropped =>
    simp only [BulkChannel.step] at hs
    split at hs
    · cases hs
      exact ⟨rfl, rfl, rfl, rfl, rfl, rfl, List.prefix_append _ _, List.prefix_rfl⟩
    · cases hs
  | look | copyOut | publishTail | write | countForwarded | stop => cases hmine

theorem step_sameEngine (hs : s.step action = some t) (hother : action.isEngine = false) :
    SameEngine s t := by
  cases action with
  | offer | copyIn | publishHead | countDropped => cases hother
  | look =>
    simp only [step] at hs
    split at hs
    · split at hs
      · cases hs
        exact ⟨rfl, rfl, rfl, rfl⟩
      · obtain ⟨queue, hqueue, rfl⟩ := Option.map_eq_some_iff.mp hs
        obtain ⟨hwrites, -, hproducer, -⟩ := System.read_begins (by decide) hqueue
        exact ⟨rfl, rfl, hproducer, hwrites⟩
    · cases hs
  | copyOut =>
    simp only [step] at hs
    split at hs
    · obtain ⟨queue, hqueue, rfl⟩ := Option.map_eq_some_iff.mp hs
      exact sameEngine_afterRead (System.copyOut_reads hqueue)
    · cases hs
  | publishTail =>
    simp only [step] at hs
    split at hs
    · obtain ⟨queue, hqueue, rfl⟩ := Option.map_eq_some_iff.mp hs
      exact sameEngine_afterRead (System.publishTail_reads hqueue)
    · cases hs
  | write succeeds =>
    simp only [step] at hs
    split at hs
    · split at hs
      · cases hs
        exact ⟨rfl, rfl, rfl, rfl⟩
      · cases hs
        exact ⟨rfl, rfl, rfl, rfl⟩
    · cases hs
  | countForwarded =>
    simp only [step] at hs
    split at hs
    · cases hs
      exact ⟨rfl, rfl, rfl, rfl⟩
    · cases hs
  | stop =>
    cases hs
    exact ⟨rfl, rfl, rfl, rfl⟩

end

/-! ## The engine waits for nobody -/

section

variable {s t : BulkChannel} {action : Action}

theorem Inv.slots_ne (h : Inv s) : s.queue.ring.slots ≠ 0 := by
  have hslots := h.queue.good.slots_eq
  rw [Ne, toNat_eq_zero]
  omega

theorem copyIn_left {q q' : System} (hs : q.step .copyIn = some q') :
    (∃ data head tail free, q.producer = .loaded data head tail free) ∧
      (q'.producer = .idle ∨ ∃ data head taken free, q'.producer = .copied data head taken free) := by
  simp only [System.step] at hs
  split at hs
  · rename_i data head tail free hloaded
    refine ⟨⟨data, head, tail, free, hloaded⟩, ?_⟩
    split at hs
    · cases hs
    · split at hs
      · cases hs
        exact .inl rfl
      · cases hs
        exact .inr ⟨_, _, _, _, rfl⟩
  · cases hs

theorem publishHead_left {q q' : System} (hs : q.step .publishHead = some q') :
    (∃ data head taken free, q.producer = .copied data head taken free) ∧ q'.producer = .idle := by
  simp only [System.step] at hs
  split at hs
  · rename_i data head taken free hcopied
    cases hs
    exact ⟨⟨data, head, taken, free, hcopied⟩, rfl⟩
  · cases hs

/-- A step of a call of `receive`: it returns, or has one step less to make. -/
structure Returning (s t : BulkChannel) : Prop where
  busy : t.engine ≠ .idle
  offers : t.offers = s.offers
  left : t.engine.left t.queue.producer < s.engine.left s.queue.producer

theorem afterWrite_returning {data : Span} {queue : System} (steps : Nat)
    (hengine : s.engine = .writing data) (hw : System.Writes data s.queue queue)
    (hleft : s.engine.left s.queue.producer = steps + 1) (hone : 1 < steps + 1)
    (hgoes : queue.producer = .idle ∨ (Receive.writing data).left queue.producer ≤ steps) :
    s.offers.length < (s.afterWrite data queue).offers.length ∨ Returning s (s.afterWrite data queue) := by
  obtain ⟨-, -, ⟨hsame, hcarries⟩ | ⟨free, taken, hcall, hidle⟩⟩ := hw
  · right
    have hbusy : queue.producer ≠ .idle := by
      intro hidle
      rw [hidle] at hcarries
      exact hcarries
    have hafter : s.afterWrite data queue = { s with queue } := by
      unfold afterWrite
      rw [hsame, List.drop_length]
    rw [hafter]
    refine ⟨by simp [hengine], rfl, ?_⟩
    have hle := hgoes.resolve_left hbusy
    rw [hleft]
    simp only [hengine]
    omega
  · unfold afterWrite
    rw [hcall, List.drop_left]
    simp only
    split
    · right
      refine ⟨by simp, rfl, ?_⟩
      rw [hleft]
      exact hone
    · left
      simp [BulkChannel.returns]

theorem Inv.engine_step (h : Inv s) (hs : s.step action = some t) (hmine : action.isEngine = true)
    (hbusy : s.engine ≠ .idle) : s.offers.length < t.offers.length ∨ Returning s t := by
  cases action with
  | offer data =>
    cases hreceive : s.engine with
    | idle => exact absurd hreceive hbusy
    | writing | counting =>
      simp only [BulkChannel.step, hreceive] at hs
      cases hs
  | copyIn =>
    simp only [BulkChannel.step] at hs
    split at hs
    · rename_i data hwriting
      obtain ⟨queue, hqueue, rfl⟩ := Option.map_eq_some_iff.mp hs
      have hcarries := h.engine
      rw [hwriting] at hcarries
      obtain ⟨⟨given, head, tail, free, hloaded⟩, hnext⟩ := copyIn_left hqueue
      refine afterWrite_returning 2 hwriting (System.copyIn_writes hcarries hqueue) ?_
        (by omega) (hnext.imp_right ?_)
      · rw [hwriting, hloaded]
        rfl
      · rintro ⟨given', head', taken, free', hcopied⟩
        rw [hcopied]
        exact le_rfl
    · cases hs
  | publishHead =>
    simp only [BulkChannel.step] at hs
    split at hs
    · rename_i data hwriting
      obtain ⟨queue, hqueue, rfl⟩ := Option.map_eq_some_iff.mp hs
      have hcarries := h.engine
      rw [hwriting] at hcarries
      obtain ⟨⟨given, head, taken, free, hcopied⟩, hidle⟩ := publishHead_left hqueue
      refine afterWrite_returning 1 hwriting (System.publishHead_writes hcarries hqueue) ?_
        (by omega) (.inl hidle)
      rw [hwriting, hcopied]
      rfl
    · cases hs
  | countDropped =>
    simp only [BulkChannel.step] at hs
    split at hs
    · cases hs
      left
      simp [BulkChannel.returns]
    · cases hs
  | look | copyOut | publishTail | write | countForwarded | stop => cases hmine

/-- The engine's thread can always make its next step. -/
theorem Inv.engine_goes (h : Inv s) :
    ∃ action t, action.isEngine = true ∧ s.step action = some t := by
  have hengine := h.engine
  cases hreceive : s.engine with
  | idle => exact ⟨.offer none, s, rfl, by simp only [BulkChannel.step, hreceive]⟩
  | counting data taken =>
    exact ⟨.countDropped, _, rfl, by simp only [BulkChannel.step, hreceive]; rfl⟩
  | writing data =>
    rw [hreceive] at hengine
    cases hproducer : s.queue.producer with
    | idle =>
      rw [hproducer] at hengine
      exact hengine.elim
    | loaded given head tail free =>
      have hqueue : ∃ queue, s.queue.step .copyIn = some queue := by
        simp only [System.step, hproducer, if_neg h.slots_ne]
        split
        · exact ⟨_, rfl⟩
        · exact ⟨_, rfl⟩
      obtain ⟨queue, hqueue⟩ := hqueue
      exact ⟨.copyIn, _, rfl, by simp only [BulkChannel.step, hreceive, hqueue, Option.map_some]; rfl⟩
    | copied given head taken free =>
      have hqueue : ∃ queue, s.queue.step .publishHead = some queue := by
        simp only [System.step, hproducer]
        exact ⟨_, rfl⟩
      obtain ⟨queue, hqueue⟩ := hqueue
      exact ⟨.publishHead, _, rfl,
        by simp only [BulkChannel.step, hreceive, hqueue, Option.map_some]; rfl⟩

theorem Inv.offers_le (h : Inv s) (hs : s.step action = some t) : s.offers.length ≤ t.offers.length := by
  cases hmine : action.isEngine with
  | false => exact (congrArg List.length (step_sameEngine hs hmine).offers).ge
  | true => exact (h.sameWorker hs hmine).offers.length_le

/-- A call that is under way comes nearer to its return with each step of the engine's thread, and the
others do not hold it up. -/
theorem receive_nears (returned : Nat) : Runs.Nears BulkChannel.step
    (fun s => Inv s ∧ returned ≤ s.offers.length ∧ (s.offers.length = returned → s.engine ≠ .idle))
    (fun s => returned < s.offers.length) Action.isEngine
    (fun s => s.engine.left s.queue.producer) where
  inv s action t hinv hs := by
    obtain ⟨h, hless, hbusy⟩ := hinv
    have hle := h.offers_le hs
    refine ⟨h.step hs, hless.trans hle, fun hsame => ?_⟩
    have hbusy' := hbusy (by omega)
    cases hmine : action.isEngine with
    | false =>
      rw [(step_sameEngine hs hmine).engine]
      exact hbusy'
    | true =>
      rcases h.engine_step hs hmine hbusy' with hreturns | hreturning
      · omega
      · exact hreturning.busy
  stays s action t hinv hdone hs := hdone.trans_le (hinv.1.offers_le hs)
  nears s action t hinv hdone hs hdone' := by
    obtain ⟨h, hless, hbusy⟩ := hinv
    cases hmine : action.isEngine with
    | false =>
      have hsame := step_sameEngine hs hmine
      rw [hsame.engine, hsame.producer]
      exact le_rfl
    | true =>
      rcases h.engine_step hs hmine (hbusy (by omega)) with hreturns | hreturning
      · omega
      · exact hreturning.left
  away s hinv hdone := by
    obtain ⟨h, hless, hbusy⟩ := hinv
    have hengine := h.engine
    cases hreceive : s.engine with
    | idle => exact absurd hreceive (hbusy (by omega))
    | counting data taken => exact Nat.one_pos
    | writing data =>
      rw [hreceive] at hengine
      cases hproducer : s.queue.producer with
      | idle =>
        rw [hproducer] at hengine
        exact hengine.elim
      | loaded => exact Nat.succ_pos 2
      | copied => exact Nat.succ_pos 1

theorem Receive.left_le (receive : Receive) (producer : Producer) : receive.left producer ≤ 3 := by
  cases receive with
  | idle | counting => simp [Receive.left]
  | writing => cases producer <;> simp [Receive.left]

/-- **The engine waits for nobody.** In every state that a channel reaches, the engine's thread can make
its next step; and a call of `receive` that is under way has returned once that thread has made three
more, however the worker and the owner step in between. -/
theorem receive_wait_free {channel s : BulkChannel} (hcreate : create = some channel)
    (hs : Runs.Reaches BulkChannel.step channel s) :
    (∃ action t, action.isEngine = true ∧ s.step action = some t) ∧
      (s.engine ≠ .idle → ∀ (actions : List Action) (t : BulkChannel), actions.foldlM BulkChannel.step s = some t →
        3 ≤ actions.countP Action.isEngine → s.offers.length < t.offers.length) := by
  have hinv := (create_inv hcreate).reaches hs
  refine ⟨hinv.engine_goes, fun hbusy actions t hrun hsteps => ?_⟩
  exact (receive_nears s.offers.length).done hrun
    ⟨hinv, le_rfl, fun _ => hbusy⟩ ((Receive.left_le _ _).trans hsteps)

/-- A first call has returned after three more steps of its thread. -/
theorem receive_wait_free_first : ∃ (channel s : BulkChannel) (data : Span),
    create = some channel ∧ channel.step (.offer (some data)) = some s ∧
      ∀ (actions : List Action) (t : BulkChannel), actions.foldlM BulkChannel.step s = some t →
        3 ≤ actions.countP Action.isEngine → 0 < t.offers.length := by
  obtain ⟨channel, hcreate⟩ := exists_create
  have hreceive : ∃ s, channel.step (.offer (some ⟨ascii "audio", by decide⟩)) = some s ∧
      s.engine ≠ .idle ∧ s.offers = [] := by
    obtain ⟨ring, -, rfl⟩ := Option.map_eq_some_iff.mp hcreate
    exact ⟨_, rfl, by simp, rfl⟩
  obtain ⟨s, hs, hbusy, hnone⟩ := hreceive
  obtain ⟨-, hreturns⟩ := receive_wait_free hcreate (.one _ hs)
  refine ⟨channel, s, _, hcreate, hs, fun actions t hrun hsteps => ?_⟩
  exact (Nat.zero_le _).trans_lt (hreturns hbusy actions t hrun hsteps)

end

/-! ## What the worker does -/

/-- What most of the worker's steps leave alone. -/
structure Still (s t : BulkChannel) : Prop where
  stopping : t.stopping = s.stopping
  broken : t.broken = s.broken
  written : t.written = s.written

/-- A step of the worker, from where it is to where it comes. -/
inductive WorkerMoves (s t : BulkChannel) : Prop
  | leaves : s.worker = .top → s.stopping = true → t.worker = .ended → Still s t →
      t.queue.returned = s.queue.returned → WorkerMoves s t
  | looks (tail head : UInt64) : s.worker = .top → s.stopping = false → t.worker = .reading →
      t.queue.consumer = .loaded kDrainBytes tail head s.queue.ring.held.length → Still s t →
      t.queue.returned = s.queue.returned → WorkerMoves s t
  | finds (capacity tail head : UInt64) (held : Nat) : s.worker = .reading →
      s.queue.consumer = .loaded capacity tail head held → min capacity.toNat held = 0 →
      t.worker = .top → Still s t →
      t.queue.returned = s.queue.returned → WorkerMoves s t
  | copies (capacity tail head taken : UInt64) (held : Nat) (out : Bytes) : s.worker = .reading →
      s.queue.consumer = .loaded capacity tail head held → t.worker = .reading →
      t.queue.consumer = .copied capacity out tail taken held →
      out.length = min capacity.toNat held → Still s t →
      t.queue.returned = s.queue.returned → WorkerMoves s t
  | takes (capacity tail taken : UInt64) (held : Nat) (out : Bytes) : s.worker = .reading →
      s.queue.consumer = .copied capacity out tail taken held →
      (out = [] ∧ t.worker = .top ∨ t.worker = .writing out) → Still s t →
      t.queue.returned = s.queue.returned ++ out → WorkerMoves s t
  | writes (chunk : Bytes) : s.worker = .writing chunk → t.worker = .counting chunk →
      t.stopping = s.stopping → t.broken = s.broken → t.written = s.written ++ chunk →
      t.queue.returned = s.queue.returned → WorkerMoves s t
  | fails (chunk : Bytes) : s.worker = .writing chunk → t.worker = .ended →
      t.stopping = s.stopping → t.broken = true → t.written = s.written →
      t.queue.returned = s.queue.returned → WorkerMoves s t
  | counts (chunk : Bytes) : s.worker = .counting chunk → t.worker = .top → Still s t →
      t.queue.returned = s.queue.returned → WorkerMoves s t

section

variable {s t : BulkChannel} {action : Action}

theorem read_loads {q q' : System} {capacity : UInt64} (hcapacity : capacity ≠ 0)
    (hs : q.step (.read (some capacity)) = some q') :
    q'.consumer = .loaded capacity q.ring.tail q.ring.head q.ring.held.length ∧
      q'.returned = q.returned := by
  simp only [System.step, if_neg hcapacity] at hs
  split at hs
  · cases hs
    exact ⟨rfl, rfl⟩
  · cases hs

theorem returned_of_reads {q q' : System} {call : ReadCall} (h : q'.reads = q.reads ++ [call]) :
    q'.returned = q.returned ++ call.returned := by
  unfold System.returned
  rw [h, List.flatMap_append, List.flatMap_singleton]

theorem copyOut_copies {q q' : System} (hs : q.step .copyOut = some q') :
    ∃ capacity tail head held, q.consumer = .loaded capacity tail head held ∧
      (q'.reads = q.reads ++ [⟨capacity.toNat, held, []⟩] ∨
        q'.reads = q.reads ∧ ∃ out taken, q'.consumer = .copied capacity out tail taken held) := by
  simp only [System.step] at hs
  split at hs
  · rename_i capacity tail head held hloaded
    refine ⟨capacity, tail, head, held, hloaded, ?_⟩
    split at hs
    · cases hs
    · split at hs
      · cases hs
        exact .inl rfl
      · cases hs
        exact .inr ⟨rfl, _, _, rfl⟩
  · cases hs

theorem publishTail_gives {q q' : System} (hs : q.step .publishTail = some q') :
    ∃ capacity out tail taken held, q.consumer = .copied capacity out tail taken held ∧
      q'.reads = q.reads ++ [⟨capacity.toNat, held, out⟩] := by
  simp only [System.step] at hs
  split at hs
  · rename_i capacity out tail taken held hcopied
    cases hs
    exact ⟨capacity, out, tail, taken, held, hcopied, rfl⟩
  · cases hs

theorem copied_length {q : System} {capacity tail taken : UInt64} {held : Nat} {out : Bytes}
    (hq : q.Inv kQueueBytes) (hcopied : q.consumer = .copied capacity out tail taken held) :
    out.length = min capacity.toNat held := by
  have hok := hq.consumer
  rw [hcopied] at hok
  obtain ⟨-, htaken, hle, rfl⟩ := hok
  rw [List.length_take, hq.good.held_length, htaken]
  omega

theorem Inv.step_worker (h : Inv s) (hs : s.step action = some t) (hmine : action.isWorker = true) :
    WorkerMoves s t := by
  cases action with
  | offer | copyIn | publishHead | countDropped | stop => cases hmine
  | look =>
    simp only [BulkChannel.step] at hs
    split at hs
    · rename_i htop
      split at hs
      · rename_i hstopping
        cases hs
        exact .leaves htop hstopping rfl ⟨rfl, rfl, rfl⟩ rfl
      · rename_i hstopping
        obtain ⟨queue, hqueue, rfl⟩ := Option.map_eq_some_iff.mp hs
        obtain ⟨hconsumer, hreturned⟩ := read_loads (by decide) hqueue
        exact .looks _ _ htop (Bool.eq_false_iff.mpr hstopping) rfl hconsumer ⟨rfl, rfl, rfl⟩ hreturned
    · cases hs
  | copyOut =>
    simp only [BulkChannel.step] at hs
    split at hs
    · rename_i hreading
      obtain ⟨queue, hqueue, rfl⟩ := Option.map_eq_some_iff.mp hs
      obtain ⟨capacity, tail, head, held, hloaded, hcall | ⟨hsame, out, taken, hcopied⟩⟩ :=
        copyOut_copies hqueue
      · have hafter : s.afterRead queue = { s with queue, worker := .top } := by
          unfold BulkChannel.afterRead
          rw [hcall, List.drop_left]
          rfl
        have hreturned := returned_of_reads hcall
        rw [List.append_nil] at hreturned
        have hnone := (h.queue.copyOut hqueue).reads_take _ (hcall ▸ List.mem_concat_self)
        rw [hafter]
        exact .finds _ _ _ _ hreading hloaded hnone.symm rfl ⟨rfl, rfl, rfl⟩ hreturned
      · have hafter : s.afterRead queue = { s with queue } := by
          unfold BulkChannel.afterRead
          rw [hsame, List.drop_length]
        rw [hafter]
        exact .copies _ _ _ _ _ _ hreading hloaded hreading hcopied
          (copied_length (h.queue.copyOut hqueue) hcopied) ⟨rfl, rfl, rfl⟩
          (by simp only [System.returned, hsame])
    · cases hs
  | publishTail =>
    simp only [BulkChannel.step] at hs
    split at hs
    · rename_i hreading
      obtain ⟨queue, hqueue, rfl⟩ := Option.map_eq_some_iff.mp hs
      obtain ⟨capacity, out, tail, taken, held, hcopied, hcall⟩ := publishTail_gives hqueue
      have hreturned := returned_of_reads hcall
      unfold BulkChannel.afterRead
      rw [hcall, List.drop_left]
      simp only
      split
      · rename_i hnone
        exact .takes _ _ _ _ _ hreading hcopied (.inl ⟨hnone, rfl⟩) ⟨rfl, rfl, rfl⟩ hreturned
      · exact .takes _ _ _ _ _ hreading hcopied (.inr rfl) ⟨rfl, rfl, rfl⟩ hreturned
    · cases hs
  | write succeeds =>
    simp only [BulkChannel.step] at hs
    split at hs
    · rename_i chunk hwriting
      split at hs
      · cases hs
        exact .writes chunk hwriting rfl rfl rfl rfl rfl
      · cases hs
        exact .fails chunk hwriting rfl rfl rfl rfl rfl
    · cases hs
  | countForwarded =>
    simp only [BulkChannel.step] at hs
    split at hs
    · rename_i chunk hcounting
      cases hs
      exact .counts chunk hcounting rfl ⟨rfl, rfl, rfl⟩ rfl
    · cases hs

end

/-! ## What is in the ring comes out -/

theorem kDrainBytes_toNat : kDrainBytes.toNat = 16384 := by decide

theorem rounds_mono {a b : Nat} (h : a ≤ b) : rounds a ≤ rounds b := by
  unfold rounds
  exact Nat.div_le_div_right (by omega)

theorem rounds_pos {a : Nat} (h : 0 < a) : 0 < rounds a := by
  unfold rounds
  rw [kDrainBytes_toNat]
  omega

/-- One round takes what it finds, up to the chunk. -/
theorem rounds_round {a held : Nat} (h : 0 < a) (hheld : a ≤ held) :
    rounds (a - min kDrainBytes.toNat held) + 1 ≤ rounds a := by
  unfold rounds
  rw [kDrainBytes_toNat]
  omega

/-- What of the first so many bytes the worker has not read. -/
def unread (goal : Nat) (s : BulkChannel) : Nat := goal - s.queue.returned.length

/-- The bytes are written, or the worker is excused. -/
def Delivered (goal : Nat) (s : BulkChannel) : Prop :=
  s.broken = true ∨ s.stopping = true ∨ goal ≤ s.written.length

structure Delivering (target : Bytes) (s : BulkChannel) : Prop where
  inv : Inv s
  ended : s.worker = .ended → s.broken = true ∨ s.stopping = true
  target : target <+: s.accepted

section

variable {s t : BulkChannel} {action : Action} {target : Bytes}

theorem Inv.accepted_eq (h : Inv s) : s.accepted = s.queue.published := by
  unfold accepted System.published
  rw [h.offers, List.flatMap_map]
  rfl

/-- What was accepted stays so. -/
theorem Inv.accepted_prefix (h : Inv s) (hs : s.step action = some t) : s.accepted <+: t.accepted := by
  have hwrites : s.queue.writes <+: t.queue.writes := by
    cases hmine : action.isEngine with
    | false => rw [(step_sameEngine hs hmine).writes]
    | true => exact (h.sameWorker hs hmine).writes
  obtain ⟨later, hlater⟩ := hwrites
  rw [h.accepted_eq, (h.step hs).accepted_eq]
  unfold System.published
  rw [← hlater, List.flatMap_append]
  exact List.prefix_append _ _

theorem stop_iff (hengine : action.isEngine = false) (hworker : action.isWorker = false) :
    action = .stop := by
  cases action with
  | stop => rfl
  | offer | copyIn | publishHead | countDropped => cases hengine
  | look | copyOut | publishTail | write | countForwarded => cases hworker

/-- A step is the engine's, the worker's, or asks to stop. -/
theorem Inv.step_cases (h : Inv s) (hs : s.step action = some t) :
    SameWorker s t ∧ action.isWorker = false ∨ WorkerMoves s t ∧ action.isWorker = true ∨
      t = { s with stopping := true } ∧ action.isWorker = false := by
  cases hworker : action.isWorker with
  | true => exact .inr (.inl ⟨h.step_worker hs hworker, rfl⟩)
  | false =>
    cases hengine : action.isEngine with
    | true => exact .inl ⟨h.sameWorker hs hengine, rfl⟩
    | false =>
      rw [stop_iff hengine hworker] at hs
      cases hs
      exact .inr (.inr ⟨rfl, rfl⟩)

/-- The flag and a failure stay, and what is written only grows. -/
theorem Inv.delivered_stays {goal : Nat} (h : Inv s) (hs : s.step action = some t)
    (hdone : Delivered goal s) : Delivered goal t := by
  obtain ⟨hsame, -⟩ | ⟨hmoves, -⟩ | ⟨rfl, -⟩ := h.step_cases hs
  · unfold Delivered
    rw [hsame.broken, hsame.stopping, hsame.written]
    exact hdone
  · have hstill : Still s t → Delivered goal t := by
      intro hstill
      unfold Delivered
      rw [hstill.broken, hstill.stopping, hstill.written]
      exact hdone
    cases hmoves with
    | leaves _ _ _ hsame => exact hstill hsame
    | looks _ _ _ _ _ _ hsame => exact hstill hsame
    | finds _ _ _ _ _ _ _ _ hsame => exact hstill hsame
    | copies _ _ _ _ _ _ _ _ _ _ _ hsame => exact hstill hsame
    | takes _ _ _ _ _ _ _ _ hsame => exact hstill hsame
    | counts _ _ _ hsame => exact hstill hsame
    | fails _ _ _ _ hbroken => exact .inl hbroken
    | writes chunk _ _ hstopping hbroken hwritten =>
      unfold Delivered at *
      rw [hbroken, hstopping, hwritten, List.length_append]
      exact hdone.imp_right (Or.imp_right fun hle => hle.trans (Nat.le_add_right _ _))
  · exact .inr (.inl rfl)

theorem Delivering.step (h : Delivering target s) (hs : s.step action = some t) :
    Delivering target t := by
  refine ⟨h.inv.step hs, ?_, h.target.trans (h.inv.accepted_prefix hs)⟩
  obtain ⟨hsame, -⟩ | ⟨hmoves, -⟩ | ⟨rfl, -⟩ := h.inv.step_cases hs
  · rw [hsame.worker, hsame.broken, hsame.stopping]
    exact h.ended
  · intro hended
    cases hmoves with
    | leaves _ hstopping _ hsame => exact .inr (hsame.stopping.trans hstopping)
    | fails _ _ _ _ hbroken => exact .inl hbroken
    | looks _ _ _ _ hworker | copies _ _ _ _ _ _ _ _ hworker | writes _ _ hworker
    | finds _ _ _ _ _ _ _ hworker | counts _ _ hworker =>
      rw [hworker] at hended
      cases hended
    | takes _ _ _ _ _ _ _ hworker =>
      rcases hworker with ⟨-, hworker⟩ | hworker
      · rw [hworker] at hended
        cases hended
      · rw [hworker] at hended
        cases hended
  · exact fun _ => .inr rfl

/-- The worker's distance from the end of the first so many bytes. -/
def away (goal : Nat) (s : BulkChannel) : Nat := s.worker.away (s.unread goal) s.queue.consumer

theorem away_sameWorker (goal : Nat) (h : SameWorker s t) : t.away goal = s.away goal := by
  unfold away unread System.returned
  rw [h.worker, h.consumer, h.reads]

/-- Where the worker holds nothing, what it has read is written. -/
theorem Delivering.returned (h : Delivering target s) (hdone : ¬ Delivered target.length s) :
    s.queue.returned = s.written ++ s.holds := by
  unfold Delivered at hdone
  exact h.inv.written.resolve_left fun hbroken => hdone (.inl hbroken)

/-- At the top of the loop something is still to be read. -/
theorem Delivering.unread_pos (h : Delivering target s) (hdone : ¬ Delivered target.length s)
    (htop : s.worker = .top) : 0 < s.unread target.length := by
  have hreturned := congrArg List.length (h.returned hdone)
  unfold holds at hreturned
  rw [htop, List.append_nil] at hreturned
  unfold Delivered at hdone
  unfold unread
  omega

/-- What is to be read is in the ring. -/
theorem Delivering.unread_held (h : Delivering target s) :
    s.unread target.length ≤ s.queue.ring.held.length := by
  have hle := h.target.length_le
  rw [h.inv.accepted_eq, h.inv.queue.published_eq, List.length_append] at hle
  unfold unread
  omega

theorem Delivering.worker_nears (h : Delivering target s) (hdone : ¬ Delivered target.length s)
    (hmoves : WorkerMoves s t) (hdone' : ¬ Delivered target.length t) :
    t.away target.length + 1 ≤ s.away target.length := by
  have hunread : t.queue.returned = s.queue.returned →
      t.unread target.length = s.unread target.length := by
    intro hsame
    unfold unread
    rw [hsame]
  unfold away
  cases hmoves with
  | leaves _ hstopping => exact absurd (.inr (.inl hstopping)) hdone
  | fails _ _ _ _ hbroken => exact absurd (.inl hbroken) hdone'
  | looks tail head htop _ hworker hconsumer _ hreturned =>
    have hround := rounds_round (h.unread_pos hdone htop) h.unread_held
    rw [htop, hworker, hconsumer, hunread hreturned]
    simp only [Worker.away]
    omega
  | finds capacity tail head held hreading hloaded hnone hworker _ hreturned =>
    rw [hreading, hloaded, hworker, hunread hreturned]
    simp only [Worker.away, hnone, Nat.sub_zero]
    omega
  | copies capacity tail head taken held out hreading hloaded hworker hcopied hlength _ hreturned =>
    rw [hreading, hloaded, hworker, hcopied, hunread hreturned]
    simp only [Worker.away, hlength]
    omega
  | takes capacity tail taken held out hreading hcopied hworker _ hreturned =>
    have hless : t.unread target.length = s.unread target.length - out.length := by
      unfold unread
      rw [hreturned, List.length_append, Nat.sub_sub]
    rw [hreading, hcopied, hless]
    rcases hworker with ⟨-, hworker⟩ | hworker
    · rw [hworker]
      simp only [Worker.away]
      omega
    · rw [hworker]
      simp only [Worker.away]
      omega
  | writes chunk hwriting hworker _ _ _ hreturned =>
    rw [hwriting, hworker, hunread hreturned]
    simp only [Worker.away]
    omega
  | counts chunk hcounting hworker _ hreturned =>
    rw [hcounting, hworker, hunread hreturned]
    simp only [Worker.away]
    omega

theorem Delivering.away_pos (h : Delivering target s) (hdone : ¬ Delivered target.length s) :
    0 < s.away target.length := by
  unfold away
  cases hworker : s.worker with
  | top =>
    have hrounds := rounds_pos (h.unread_pos hdone hworker)
    simp only [Worker.away]
    omega
  | reading =>
    have hconsumer := h.inv.worker
    rw [hworker] at hconsumer
    cases hcase : s.queue.consumer with
    | idle => exact absurd hcase hconsumer
    | loaded | copied => simp only [Worker.away]; omega
  | writing | counting => simp only [Worker.away]; omega
  | ended =>
    unfold Delivered at hdone
    exact absurd ((h.ended hworker).imp_right .inl) hdone

/-- The worker comes nearer to the bytes with each of its steps, and the engine does not hold it up. -/
theorem delivery_nears (target : Bytes) : Runs.Nears BulkChannel.step (Delivering target)
    (Delivered target.length) Action.isWorker (away target.length) where
  inv _ _ _ h hs := h.step hs
  stays _ _ _ h hdone hs := h.inv.delivered_stays hs hdone
  nears s action t h hdone hs hdone' := by
    obtain ⟨hsame, hother⟩ | ⟨hmoves, hmine⟩ | ⟨rfl, -⟩ := h.inv.step_cases hs
    · rw [hother, away_sameWorker _ hsame]
      exact le_rfl
    · rw [hmine]
      exact h.worker_nears hdone hmoves hdone'
    · exact absurd (.inr (.inl rfl)) hdone'
  away _ h hdone := h.away_pos hdone

theorem Delivering.run {actions : List Action} (h : Delivering target s)
    (hrun : actions.foldlM BulkChannel.step s = some t) : Delivering target t :=
  Runs.run_invariant (fun _ _ _ _ h hs => h.step hs) hrun h

theorem create_delivering {channel : BulkChannel} (hcreate : create = some channel)
    (hs : Runs.Reaches BulkChannel.step channel s) : Delivering s.accepted s := by
  have hfresh : Delivering [] channel := by
    refine ⟨create_inv hcreate, ?_, List.nil_prefix⟩
    obtain ⟨ring, -, rfl⟩ := Option.map_eq_some_iff.mp hcreate
    exact fun hended => by cases hended
  have hreached : Delivering [] s := hs.invariant hfresh fun _ _ _ h hstep => h.step hstep
  exact ⟨hreached.inv, hreached.ended, List.prefix_rfl⟩

/-- The worker's step that is next, as long as it has not ended. -/
theorem Inv.worker_goes (h : Inv s) (hrunning : s.worker ≠ .ended) :
    ∃ action t, action.isWorker = true ∧ s.step action = some t := by
  have hconsumer := h.worker
  cases hworker : s.worker with
  | ended => exact absurd hworker hrunning
  | writing chunk =>
    exact ⟨.write true, _, rfl, by simp only [BulkChannel.step, hworker, if_true]; rfl⟩
  | counting chunk => exact ⟨.countForwarded, _, rfl, by simp only [BulkChannel.step, hworker]; rfl⟩
  | top =>
    rw [hworker] at hconsumer
    change s.queue.consumer = .idle at hconsumer
    have hqueue : ∃ queue, s.queue.step (.read (some kDrainBytes)) = some queue := by
      simp only [System.step, hconsumer, if_neg (show kDrainBytes ≠ 0 by decide)]
      exact ⟨_, rfl⟩
    obtain ⟨queue, hqueue⟩ := hqueue
    cases hstopping : s.stopping with
    | true => exact ⟨.look, _, rfl, by simp only [BulkChannel.step, hworker, hstopping, if_true]; rfl⟩
    | false =>
      exact ⟨.look, _, rfl, by
        simp only [BulkChannel.step, hworker, hstopping, hqueue, Bool.false_eq_true, if_false,
          Option.map_some]
        rfl⟩
  | reading =>
    rw [hworker] at hconsumer
    cases hcase : s.queue.consumer with
    | idle => exact absurd hcase hconsumer
    | loaded capacity tail head held =>
      have hqueue : ∃ queue, s.queue.step .copyOut = some queue := by
        simp only [System.step, hcase, if_neg h.slots_ne]
        split
        · exact ⟨_, rfl⟩
        · exact ⟨_, rfl⟩
      obtain ⟨queue, hqueue⟩ := hqueue
      exact ⟨.copyOut, _, rfl, by simp only [BulkChannel.step, hworker, hqueue, Option.map_some]; rfl⟩
    | copied capacity out tail taken held =>
      have hqueue : ∃ queue, s.queue.step .publishTail = some queue := by
        simp only [System.step, hcase]
        exact ⟨_, rfl⟩
      obtain ⟨queue, hqueue⟩ := hqueue
      exact ⟨.publishTail, _, rfl,
        by simp only [BulkChannel.step, hworker, hqueue, Option.map_some]; rfl⟩

theorem Worker.away_le (worker : Worker) (consumer : Consumer) (unread : Nat) :
    worker.away unread consumer ≤ 5 * rounds unread + 4 := by
  have hless : ∀ n, rounds (unread - n) ≤ rounds unread := fun n => rounds_mono (Nat.sub_le _ _)
  cases worker with
  | top | writing | counting | ended => simp only [Worker.away]; omega
  | reading =>
    cases consumer with
    | idle => simp only [Worker.away]; omega
    | loaded capacity _ _ held =>
      have hle := hless (min capacity.toNat held)
      simp only [Worker.away]
      omega
    | copied _ out =>
      have hle := hless out.length
      simp only [Worker.away]
      omega

/-- At most 44 steps. -/
theorem Inv.rounds_held_le (h : Inv s) : 5 * rounds s.queue.ring.held.length + 4 ≤ 44 := by
  have hle := h.queue.good.heldCount_le
  rw [show kQueueBytes.toNat = 131072 by decide] at hle
  rw [h.queue.good.held_length]
  unfold rounds
  rw [kDrainBytes_toNat]
  omega

/-- **What the ring has taken comes out.** As long as nobody asks the worker to stop and every write to
the endpoint returns and has not failed, the worker can make its next step; and what has been accepted
from the engine is written, in order, once the worker has made five steps more for every 16 KiB that
were in the ring, and four. These are never more than 44, whatever the engine goes on to offer. -/
theorem accepted_is_written {channel s : BulkChannel} (hcreate : create = some channel)
    (hs : Runs.Reaches BulkChannel.step channel s) :
    (s.broken = false → s.stopping = false →
      ∃ action t, action.isWorker = true ∧ s.step action = some t) ∧
      5 * rounds s.queue.ring.held.length + 4 ≤ 44 ∧
      ∀ (actions : List Action) (t : BulkChannel), actions.foldlM BulkChannel.step s = some t →
        t.broken = false → t.stopping = false →
        5 * rounds s.queue.ring.held.length + 4 ≤ actions.countP Action.isWorker →
        s.accepted <+: t.written := by
  have h := create_delivering hcreate hs
  refine ⟨fun hok hgoing => h.inv.worker_goes fun hended => ?_, h.inv.rounds_held_le,
    fun actions t hrun hok hgoing hsteps => ?_⟩
  · simpa [hok, hgoing] using h.ended hended
  · have hunread : s.unread s.accepted.length = s.queue.ring.held.length := by
      unfold unread
      rw [h.inv.accepted_eq, h.inv.queue.published_eq, List.length_append, Nat.add_sub_cancel_left]
    have haway : s.away s.accepted.length ≤ 5 * rounds s.queue.ring.held.length + 4 := by
      rw [← hunread]
      exact Worker.away_le _ _ _
    have hdone := (delivery_nears s.accepted).done hrun h (haway.trans hsteps)
    unfold Delivered at hdone
    rw [hok, hgoing] at hdone
    have ht := h.run hrun
    have hwritten : t.written <+: t.accepted := by
      rw [(ht.inv.accounted hok).bytes, List.append_assoc]
      exact List.prefix_append _ _
    exact List.prefix_of_prefix_length_le ht.target hwritten (by simpa using hdone)

/-- 17 bytes offered are written after 44 steps of the worker. -/
theorem accepted_is_written_once : ∃ channel s, create = some channel ∧
    Runs.Reaches BulkChannel.step channel s ∧ s.totalOffered = 17 ∧
      ∀ (actions : List Action) (t : BulkChannel), actions.foldlM BulkChannel.step s = some t →
        t.broken = false → t.stopping = false → 44 ≤ actions.countP Action.isWorker →
        s.accepted <+: t.written := by
  obtain ⟨channel, hcreate⟩ := exists_create
  have hfresh : channel.engine = .idle ∧ channel.totalOffered = 0 := by
    obtain ⟨ring, -, rfl⟩ := Option.map_eq_some_iff.mp hcreate
    exact ⟨rfl, rfl⟩
  obtain ⟨s, hs, -, -, -, -, htotal⟩ := (create_inv hcreate).receives_all hfresh.1
    (show (⟨ascii "audio-audio-audio", by decide⟩ : Span).bytes ≠ 0 by decide) 1
  obtain ⟨-, hle, hwritten⟩ := accepted_is_written hcreate hs
  exact ⟨channel, s, hcreate, hs, by rw [htotal, hfresh.2]; decide,
    fun actions t hrun hok hgoing hsteps => hwritten actions t hrun hok hgoing (hle.trans hsteps)⟩

end

end BulkChannel

end OakBarrels.Bulk
