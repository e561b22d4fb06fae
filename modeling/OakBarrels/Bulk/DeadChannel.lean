import OakBarrels.Bulk.BulkChannelProofs

/-!
# A channel without its worker

Once the worker has ended nothing leaves the queue. `receive` does not know: it goes on until the
queue is full, and only then refuses everything.
-/

open Octets

namespace OakBarrels.Bulk

/-! ## Calls that fill what is free -/

/-- Calls of `receive` that each take as much of their offer as still fits. -/
def Fills : Nat → List Offer → Prop
  | _, [] => True
  | room, o :: rest => o.taken = min o.data.length room ∧ Fills (room - o.taken) rest

def takenBy (offers : List Offer) : Nat := (offers.map Offer.taken).sum

def refusedBy (offers : List Offer) : Nat := (offers.map fun o => o.data.length - o.taken).sum

section

variable {room : Nat} {offers more : List Offer}

theorem fills_append :
    Fills room (offers ++ more) ↔ Fills room offers ∧ Fills (room - takenBy offers) more := by
  induction offers generalizing room with
  | nil => simp [Fills, takenBy]
  | cons o rest ih =>
    rw [List.cons_append, Fills, Fills, ih, and_assoc]
    simp only [takenBy, List.map_cons, List.sum_cons, Nat.sub_sub]

theorem Fills.taken_le (h : Fills room offers) : takenBy offers ≤ room := by
  induction offers generalizing room with
  | nil => simp [takenBy]
  | cons o rest ih =>
    obtain ⟨htaken, hrest⟩ := h
    have hle := ih hrest
    simp only [takenBy, List.map_cons, List.sum_cons] at hle ⊢
    omega

theorem Fills.within (h : Fills room offers) : ∀ o ∈ offers, o.taken ≤ o.data.length := by
  induction offers generalizing room with
  | nil => simp
  | cons o rest ih =>
    obtain ⟨htaken, hrest⟩ := h
    exact List.forall_mem_cons.mpr ⟨by omega, ih hrest⟩

end

/-! ## The queue -/

/-- The space that the producer found when it loaded the indices. -/
def Producer.free? : Producer → Option Nat
  | .idle => none
  | .loaded _ _ _ free => some free
  | .copied _ _ _ free => some free

namespace System

open BulkChannel (offerOf)

/-- From one state to another these calls of `write` have returned and nothing was read. -/
structure Filling (q q' : System) (calls : List WriteCall) : Prop where
  writes : q'.writes = q.writes ++ calls
  reads : q'.reads = q.reads
  consumer : q'.consumer = .idle
  fills : Fills q.ring.free (calls.map offerOf)
  free : ∀ free, q'.producer.free? = some free → free = q.ring.free - takenBy (calls.map offerOf)

section

variable {capacity : UInt64} {q q' q'' : System} {calls : List WriteCall}

theorem taken_length (h : ∀ w ∈ calls, w.taken = min w.offered.length w.free) :
    (calls.flatMap fun w => w.offered.take w.taken).length = takenBy (calls.map offerOf) := by
  induction calls with
  | nil => rfl
  | cons w rest ih =>
    rw [List.forall_mem_cons] at h
    have hrest := ih h.2
    have hw := h.1
    simp only [List.flatMap_cons, List.length_append, List.length_take, hrest, takenBy,
      List.map_cons, List.sum_cons, offerOf]
    omega

/-- What is free is what was, less what was taken since. -/
theorem Filling.ring_free (h : Filling q q' calls) (hq : q.Inv capacity) (hq' : q'.Inv capacity) :
    q'.ring.free = q.ring.free - takenBy (calls.map offerOf) := by
  have htaken : ∀ w ∈ calls, w.taken = min w.offered.length w.free := fun w hw =>
    hq'.writes_take w (by rw [h.writes]; exact List.mem_append_right _ hw)
  have hlength := congrArg List.length hq.published_eq
  have hlength' := congrArg List.length hq'.published_eq
  simp only [published, returned, h.writes, h.reads, List.flatMap_append, List.length_append,
    taken_length htaken] at hlength hlength'
  unfold RingBuffer.free RingBuffer.capacity
  rw [hq.good.usable_eq, hq'.good.usable_eq]
  omega

theorem Filling.returns (h : Filling q q' calls) {call : WriteCall}
    (hwrites : q''.writes = q'.writes ++ [call]) (hreads : q''.reads = q'.reads)
    (hconsumer : q''.consumer = q'.consumer) (hidle : q''.producer = .idle)
    (hfree : q'.producer.free? = some call.free) (hq'' : q''.Inv capacity) :
    Filling q q'' (calls ++ [call]) := by
  have htaken := hq''.writes_take call (by rw [hwrites]; simp)
  refine ⟨?_, hreads.trans h.reads, hconsumer.trans h.consumer, ?_, ?_⟩
  · rw [hwrites, h.writes, List.append_assoc]
  · rw [List.map_append, fills_append]
    refine ⟨h.fills, ?_, trivial⟩
    change call.taken = _
    rw [htaken, h.free _ hfree]
    rfl
  · rw [hidle]
    exact fun _ hnone => by cases hnone

theorem Filling.write (h : Filling q q' calls) (hq : q.Inv capacity) (hq' : q'.Inv capacity)
    {data : Span} (hbytes : data.bytes ≠ 0) (hs : q'.step (.write (some data)) = some q'') :
    Filling q q'' calls := by
  simp only [step, if_neg hbytes] at hs
  split at hs
  · cases hs
    refine ⟨h.writes, h.reads, h.consumer, h.fills, ?_⟩
    rintro free hfree
    cases hfree
    exact h.ring_free hq hq'
  · cases hs

theorem Filling.copyIn (h : Filling q q' calls) (hq' : q'.Inv capacity)
    (hs : q'.step .copyIn = some q'') : ∃ calls', Filling q q'' calls' := by
  have hq'' := hq'.copyIn hs
  simp only [step] at hs
  split at hs
  · rename_i data head tail free hloaded
    split at hs
    · cases hs
    · split at hs
      · cases hs
        exact ⟨_, h.returns rfl rfl rfl rfl (by rw [hloaded]; rfl) hq''⟩
      · cases hs
        refine ⟨calls, h.writes, h.reads, h.consumer, h.fills, fun free' hfree => ?_⟩
        cases hfree
        exact h.free _ (by rw [hloaded]; rfl)
  · cases hs

theorem Filling.publishHead (h : Filling q q' calls) (hq' : q'.Inv capacity)
    (hs : q'.step .publishHead = some q'') : ∃ calls', Filling q q'' calls' := by
  have hq'' := hq'.publishHead hs
  simp only [step] at hs
  split at hs
  · rename_i data head taken free hcopied
    cases hs
    exact ⟨_, h.returns rfl rfl rfl rfl (by rw [hcopied]; rfl) hq''⟩
  · cases hs

end

end System

namespace BulkChannel

/-! ## The channel -/

/-- What has become of a channel whose worker had ended. -/
structure Dead (s t : BulkChannel) : Prop where
  inv : Inv t
  ended : t.worker = .ended
  forwarded : t.forwarded = s.forwarded
  written : t.written = s.written
  offers : s.offers <+: t.offers
  filling : ∃ calls, System.Filling s.queue t.queue calls

variable {s t u : BulkChannel}

theorem Dead.start (h : Inv s) (hended : s.worker = .ended) (hidle : s.engine = .idle) :
    Dead s s := by
  have hproducer := h.engine
  have hconsumer := h.worker
  rw [hidle] at hproducer
  rw [hended] at hconsumer
  refine ⟨h, hended, rfl, rfl, List.prefix_rfl, [], by simp, rfl, hconsumer, trivial, ?_⟩
  rw [show s.queue.producer = .idle from hproducer]
  exact fun _ hnone => by cases hnone

theorem afterWrite_keeps (t : BulkChannel) (data : Span) (queue : System) :
    (t.afterWrite data queue).queue = queue ∧ (t.afterWrite data queue).worker = t.worker ∧
      (t.afterWrite data queue).forwarded = t.forwarded ∧
      (t.afterWrite data queue).written = t.written ∧
      t.offers <+: (t.afterWrite data queue).offers := by
  unfold afterWrite
  simp only
  split
  · exact ⟨rfl, rfl, rfl, rfl, List.prefix_rfl⟩
  · split
    · exact ⟨rfl, rfl, rfl, rfl, List.prefix_rfl⟩
    · exact ⟨rfl, rfl, rfl, rfl, List.prefix_append _ _⟩

theorem Dead.afterWrite (h : Dead s t) {data : Span} {queue : System}
    (hinv : Inv (t.afterWrite data queue))
    (hfilling : ∃ calls, System.Filling s.queue queue calls) : Dead s (t.afterWrite data queue) := by
  obtain ⟨hqueue, hworker, hforwarded, hwritten, hoffers⟩ := afterWrite_keeps t data queue
  exact ⟨hinv, hworker.trans h.ended, hforwarded.trans h.forwarded, hwritten.trans h.written,
    h.offers.trans hoffers, by rw [hqueue]; exact hfilling⟩

/-- Only the engine moves, and nothing leaves the queue. -/
theorem Dead.step (h : Dead s t) (hs : Inv s) {action : Action} (hstep : t.step action = some u) :
    Dead s u := by
  have hu := h.inv.step hstep
  obtain ⟨calls, hfilling⟩ := h.filling
  cases action with
  | offer data =>
    simp only [BulkChannel.step] at hstep
    split at hstep
    · cases data with
      | none =>
        cases hstep
        exact h
      | some data =>
        simp only at hstep
        split at hstep
        · cases hstep
          exact h
        · rename_i hbytes
          obtain ⟨queue, hqueue, rfl⟩ := Option.map_eq_some_iff.mp hstep
          exact ⟨hu, h.ended, h.forwarded, h.written, h.offers, calls,
            hfilling.write hs.queue h.inv.queue hbytes hqueue⟩
    · cases hstep
  | copyIn =>
    simp only [BulkChannel.step] at hstep
    split at hstep
    · obtain ⟨queue, hqueue, rfl⟩ := Option.map_eq_some_iff.mp hstep
      exact h.afterWrite hu (hfilling.copyIn h.inv.queue hqueue)
    · cases hstep
  | publishHead =>
    simp only [BulkChannel.step] at hstep
    split at hstep
    · obtain ⟨queue, hqueue, rfl⟩ := Option.map_eq_some_iff.mp hstep
      exact h.afterWrite hu (hfilling.publishHead h.inv.queue hqueue)
    · cases hstep
  | countDropped =>
    simp only [BulkChannel.step] at hstep
    split at hstep
    · cases hstep
      exact ⟨hu, h.ended, h.forwarded, h.written, h.offers.trans (List.prefix_append _ _), calls,
        hfilling⟩
    · cases hstep
  | stop =>
    cases hstep
    exact ⟨hu, h.ended, h.forwarded, h.written, h.offers, calls, hfilling⟩
  | look | copyOut | publishTail | write | countForwarded =>
    simp only [BulkChannel.step, h.ended] at hstep
    cases hstep

theorem Dead.reaches (hs : Inv s) (hended : s.worker = .ended) (hidle : s.engine = .idle)
    (ht : Runs.Reaches BulkChannel.step s t) : Dead s t :=
  ht.invariant (Dead.start hs hended hidle) fun _ _ _ h hstep => h.step hs hstep

theorem Dead.fills (h : Dead s t) (hs : Inv s) (hidle : s.engine = .idle) :
    ∃ later, t.offers = s.offers ++ later ∧ Fills s.queue.ring.free later := by
  obtain ⟨later, hlater⟩ := h.offers
  obtain ⟨calls, hfilling⟩ := h.filling
  refine ⟨later, hlater.symm, ?_⟩
  have hbefore := hs.offers
  have hafter := h.inv.offers
  rw [inFlight_nil (by simp [hidle]), List.append_nil] at hbefore
  rw [← hlater, hfilling.writes, List.map_append, ← hbefore, List.append_assoc] at hafter
  have hcalls := hfilling.fills
  rw [← List.append_cancel_left hafter, fills_append] at hcalls
  exact hcalls.1

theorem refused_append (offers : List Offer) {later : List Offer}
    (h : ∀ o ∈ later, o.taken ≤ o.data.length) :
    ((offers ++ later).flatMap Offer.data).length
        - ((offers ++ later).flatMap Offer.accepted).length
      = (offers.flatMap Offer.data).length - (offers.flatMap Offer.accepted).length
        + refusedBy later := by
  induction later using List.reverseRecOn with
  | nil => simp [refusedBy]
  | append_singleton later o ih =>
    rw [List.forall_mem_append] at h
    rw [← List.append_assoc, refused_concat _ (h.2 o (by simp)), ih h.1]
    simp [refusedBy, Nat.add_assoc]

theorem Dead.dropped (h : Dead s t) (hs : Inv s) {later : List Offer}
    (hlater : t.offers = s.offers ++ later) (hwithin : ∀ o ∈ later, o.taken ≤ o.data.length) :
    t.dropped.toNat = (s.dropped.toNat + refusedBy later) % 2 ^ 64 := by
  rw [h.inv.dropped, hs.dropped, Nat.mod_add_mod]
  unfold totalOffered totalAccepted
  rw [hlater, refused_append s.offers hwithin]

/-- **A channel without its worker.** Every call of `receive` that begins once the worker has ended
takes what still fits and counts the rest as dropped. Together they take no more than was free, and
none of it is forwarded. -/
theorem dead_channel_fills {channel s t : BulkChannel} (hcreate : create = some channel)
    (hs : Runs.Reaches BulkChannel.step channel s) (hended : s.worker = .ended)
    (hidle : s.engine = .idle) (ht : Runs.Reaches BulkChannel.step s t) :
    ∃ later, t.offers = s.offers ++ later ∧ Fills s.queue.ring.free later ∧
      takenBy later ≤ s.queue.ring.free ∧
      t.dropped.toNat = (s.dropped.toNat + refusedBy later) % 2 ^ 64 ∧
      t.forwarded = s.forwarded ∧ t.written = s.written := by
  have hinv := (create_inv hcreate).reaches hs
  have hdead := Dead.reaches hinv hended hidle ht
  obtain ⟨later, hlater, hfills⟩ := hdead.fills hinv hidle
  exact ⟨later, hlater, hfills, hfills.taken_le, hdead.dropped hinv hlater hfills.within,
    hdead.forwarded, hdead.written⟩

/-- A channel that is stopped before the engine offers anything. -/
theorem exists_dead : ∃ channel s t, create = some channel ∧ Runs.Reaches step channel s ∧
    s.worker = .ended ∧ s.engine = .idle ∧ Runs.Reaches step s t ∧
      ∃ o, t.offers = s.offers ++ [o] ∧ o.taken = 17 := by
  obtain ⟨channel, hcreate⟩ := exists_create
  obtain ⟨ring, hring, rfl⟩ := Option.map_eq_some_iff.mp hcreate
  let fresh : BulkChannel := ⟨.start ring, .idle, .top, false, 0, 0, false, [], []⟩
  let stopped : BulkChannel := { fresh with stopping := true }
  let ended : BulkChannel := { stopped with worker := .ended }
  have hstop : fresh.step .stop = some stopped := rfl
  have hlook : stopped.step .look = some ended := rfl
  have hended : Runs.Reaches step fresh ended := .trans (.one _ hstop) (.one _ hlook)
  have hinv := (create_inv hcreate).reaches hended
  obtain ⟨t, ht, hreceived⟩ := hinv.receives rfl
    (show (⟨ascii "audio-audio-audio", by decide⟩ : Span).bytes ≠ 0 by decide)
  obtain ⟨taken, hoffers⟩ := hreceived.offers
  refine ⟨_, ended, t, hcreate, hended, rfl, rfl, ht, _, hoffers, ?_⟩
  obtain ⟨later, hlater, hfills⟩ := (Dead.reaches hinv rfl rfl ht).fills hinv rfl
  obtain rfl : [_] = later := List.append_cancel_left (hoffers.symm.trans hlater)
  have hempty : ended.queue.ring.held = [] := hinv.queue.published_eq.symm
  have hfree : ended.queue.ring.free = 131072 := by
    unfold RingBuffer.free RingBuffer.capacity
    rw [hinv.queue.good.usable_eq, hempty]
    decide
  obtain ⟨htaken, -⟩ := hfills
  rw [hfree] at htaken
  exact htaken

theorem dead_channel_fills_stopped :
    ∃ channel s t later, create = some channel ∧ Runs.Reaches step channel s ∧
      s.worker = .ended ∧ Runs.Reaches step s t ∧ t.offers = s.offers ++ later ∧
      takenBy later ≤ s.queue.ring.free := by
  obtain ⟨channel, s, t, hcreate, hs, hended, hidle, ht, -⟩ := exists_dead
  obtain ⟨later, hlater, -, hle, -⟩ := dead_channel_fills hcreate hs hended hidle ht
  exact ⟨channel, s, t, later, hcreate, hs, hended, ht, hlater, hle⟩

/-- It takes what nobody will read. -/
theorem dead_channel_accepts :
    ¬ ∀ channel s t, create = some channel → Runs.Reaches step channel s → s.worker = .ended →
      s.engine = .idle → Runs.Reaches step s t → ∀ later, t.offers = s.offers ++ later →
      takenBy later = 0 ∧ t.dropped.toNat
        = (s.dropped.toNat + (later.map fun o => o.data.length).sum) % 2 ^ 64 := by
  intro h
  obtain ⟨channel, s, t, hcreate, hs, hended, hidle, ht, o, hoffers, htaken⟩ := exists_dead
  have hnone := (h channel s t hcreate hs hended hidle ht [o] hoffers).1
  simp [takenBy, htaken] at hnone

end BulkChannel

end OakBarrels.Bulk
