import OakBarrels.Bulk.BulkChannel
import OakBarrels.Bulk.RingBufferProofs

/-!
# Where the audio goes

One lemma a step of the ring about the calls that return in it, then the channel's invariant: what
the ring has taken is what the offers say, and what it has given is written or in the worker's hand.
-/

open Octets

namespace OakBarrels.Bulk

/-! ## The calls that return in a step of the ring -/

def Producer.Carries (data : Span) : Producer → Prop
  | .idle => False
  | .loaded given .. => given = data
  | .copied given .. => given = data

namespace System

/-- A step of the producer in `write`: it goes on, or returns. -/
def Writes (data : Span) (q q' : System) : Prop :=
  q'.reads = q.reads ∧ q'.consumer = q.consumer ∧
    (q'.writes = q.writes ∧ q'.producer.Carries data ∨
      ∃ free taken, q'.writes = q.writes ++ [⟨data.data, free, taken⟩] ∧ q'.producer = .idle)

/-- A step of the consumer in `read`. -/
def Reads (q q' : System) : Prop :=
  q'.writes = q.writes ∧ q'.producer = q.producer ∧
    (q'.reads = q.reads ∧ q'.consumer ≠ .idle ∨
      ∃ call, q'.reads = q.reads ++ [call] ∧ q'.consumer = .idle)

section

variable {q q' : System} {data : Span}

theorem write_begins (hbytes : data.bytes ≠ 0) (hs : q.step (.write (some data)) = some q') :
    q'.writes = q.writes ∧ q'.reads = q.reads ∧ q'.consumer = q.consumer ∧
      q'.producer.Carries data := by
  simp only [step, if_neg hbytes] at hs
  split at hs
  · cases hs
    exact ⟨rfl, rfl, rfl, rfl⟩
  · cases hs

theorem copyIn_writes (hcarries : q.producer.Carries data) (hs : q.step .copyIn = some q') :
    Writes data q q' := by
  simp only [step] at hs
  split at hs
  · rename_i given head tail free hloaded
    rw [hloaded] at hcarries
    cases hcarries
    split at hs
    · cases hs
    · split at hs
      · cases hs
        exact ⟨rfl, rfl, .inr ⟨free, 0, rfl, rfl⟩⟩
      · cases hs
        exact ⟨rfl, rfl, .inl ⟨rfl, rfl⟩⟩
  · cases hs

theorem publishHead_writes (hcarries : q.producer.Carries data)
    (hs : q.step .publishHead = some q') : Writes data q q' := by
  simp only [step] at hs
  split at hs
  · rename_i given head taken free hcopied
    rw [hcopied] at hcarries
    cases hcarries
    cases hs
    exact ⟨rfl, rfl, .inr ⟨free, taken.toNat, rfl, rfl⟩⟩
  · cases hs

theorem read_begins {capacity : UInt64} (hcapacity : capacity ≠ 0)
    (hs : q.step (.read (some capacity)) = some q') :
    q'.writes = q.writes ∧ q'.reads = q.reads ∧ q'.producer = q.producer ∧
      q'.consumer ≠ .idle := by
  simp only [step, if_neg hcapacity] at hs
  split at hs
  · cases hs
    exact ⟨rfl, rfl, rfl, fun h => by cases h⟩
  · cases hs

theorem copyOut_reads (hs : q.step .copyOut = some q') : Reads q q' := by
  simp only [step] at hs
  split at hs
  · split at hs
    · cases hs
    · split at hs
      · cases hs
        exact ⟨rfl, rfl, .inr ⟨_, rfl, rfl⟩⟩
      · cases hs
        exact ⟨rfl, rfl, .inl ⟨rfl, fun h => by cases h⟩⟩
  · cases hs

theorem publishTail_reads (hs : q.step .publishTail = some q') : Reads q q' := by
  simp only [step] at hs
  split at hs
  · cases hs
    exact ⟨rfl, rfl, .inr ⟨_, rfl, rfl⟩⟩
  · cases hs

end

end System

namespace BulkChannel

/-! ## The channel -/

def engineOk (producer : Producer) : Receive → Prop
  | .idle => producer = .idle
  | .writing data => producer.Carries data
  | .counting .. => producer = .idle

def workerOk (consumer : Consumer) : Worker → Prop
  | .reading => consumer ≠ .idle
  | _ => consumer = .idle

def offerOf (w : WriteCall) : Offer := ⟨w.offered, w.taken⟩

structure Inv (s : BulkChannel) : Prop where
  queue : s.queue.Inv kQueueBytes
  engine : engineOk s.queue.producer s.engine
  worker : workerOk s.queue.consumer s.worker
  offers : s.offers ++ s.inFlight = s.queue.writes.map offerOf
  written : s.broken = true ∨ s.queue.returned = s.written ++ s.holds
  dropped : s.dropped.toNat = (s.totalOffered - s.totalAccepted) % 2 ^ 64
  forwarded : ∃ counted, s.written = counted ++ s.uncounted ∧
    s.forwarded.toNat = counted.length % 2 ^ 64

theorem Inv.accounted {s : BulkChannel} (h : Inv s) (hok : s.broken = false) : Accounted s := by
  refine ⟨?_, h.dropped, h.forwarded⟩
  have hreturned : s.queue.returned = s.written ++ s.holds := by simpa [hok] using h.written
  have hpublished : s.accepted = s.queue.published := by
    unfold accepted System.published
    rw [h.offers, List.flatMap_map]
    rfl
  rw [hpublished, h.queue.published_eq, hreturned]

theorem create_inv {s : BulkChannel} (h : create = some s) : Inv s := by
  unfold create at h
  obtain ⟨ring, hring, rfl⟩ := Option.map_eq_some_iff.mp h
  exact ⟨System.start_inv hring (by decide), rfl, rfl, rfl, .inr rfl, rfl, [], rfl, rfl⟩

section

variable {s t : BulkChannel}

/-- An offer that is taken as far as it says adds what is left of it. -/
theorem refused_concat (offers : List Offer) {o : Offer} (h : o.taken ≤ o.data.length) :
    ((offers ++ [o]).flatMap Offer.data).length - ((offers ++ [o]).flatMap Offer.accepted).length
      = (offers.flatMap Offer.data).length - (offers.flatMap Offer.accepted).length
        + (o.data.length - o.taken) := by
  have hle : (offers.flatMap Offer.accepted).length ≤ (offers.flatMap Offer.data).length := by
    rw [List.length_flatMap, List.length_flatMap]
    refine List.sum_le_sum fun o _ => ?_
    simp [Offer.accepted]
  have haccepted : o.accepted.length = o.taken := by simpa [Offer.accepted] using h
  simp only [List.flatMap_append, List.flatMap_singleton, List.length_append, haccepted]
  omega

/-- What `receive` has counted when it returns. -/
theorem Inv.returns {data : Span} {taken : UInt64} (hqueue : s.queue.Inv kQueueBytes)
    (hproducer : s.queue.producer = .idle) (hworker : workerOk s.queue.consumer s.worker)
    (hoffers : s.offers ++ [⟨data.data, taken.toNat⟩] = s.queue.writes.map offerOf)
    (hwritten : s.broken = true ∨ s.queue.returned = s.written ++ s.holds)
    (htaken : taken.toNat ≤ data.data.length)
    (hdropped : s.dropped.toNat
      = (s.totalOffered - s.totalAccepted + (data.data.length - taken.toNat)) % 2 ^ 64)
    (hforwarded : ∃ counted, s.written = counted ++ s.uncounted ∧
      s.forwarded.toNat = counted.length % 2 ^ 64) : Inv (s.returns data taken) := by
  refine ⟨hqueue, hproducer, hworker, ?_, hwritten, ?_, hforwarded⟩
  · rw [show (s.returns data taken).queue = s.queue from rfl, ← hoffers]
    simp [BulkChannel.returns, inFlight]
  · rw [show (s.returns data taken).dropped = s.dropped from rfl, hdropped]
    have hrefused := refused_concat s.offers (o := ⟨data.data, taken.toNat⟩) htaken
    exact congrArg (· % 2 ^ 64) hrefused.symm

theorem inFlight_nil (h : ∀ data taken, s.engine ≠ .counting data taken) : s.inFlight = [] := by
  unfold inFlight
  split
  · exact absurd ‹_› (h _ _)
  · rfl

theorem Inv.afterWrite (h : Inv s) {data : Span} {queue : System}
    (hengine : s.engine = .writing data) (hqueue : queue.Inv kQueueBytes)
    (hw : System.Writes data s.queue queue) : Inv (s.afterWrite data queue) := by
  obtain ⟨hreads, hconsumer, hcase⟩ := hw
  have hempty : s.inFlight = [] := inFlight_nil (by simp [hengine])
  have hreturned : queue.returned = s.queue.returned := by
    unfold System.returned
    rw [hreads]
  have hoffers := h.offers
  rw [hempty, List.append_nil] at hoffers
  have hworker : workerOk queue.consumer s.worker := hconsumer ▸ h.worker
  unfold BulkChannel.afterWrite
  rcases hcase with ⟨hsame, hcarries⟩ | ⟨free, taken, hcall, hidle⟩
  · rw [hsame, List.drop_length]
    refine ⟨hqueue, ?_, hworker, ?_, hreturned ▸ h.written, h.dropped, h.forwarded⟩
    · simp only [hengine]
      exact hcarries
    · simp only [hsame]
      exact h.offers
  · rw [hcall, List.drop_left]
    have hle : taken ≤ data.data.length := by
      have := hqueue.writes_take ⟨data.data, free, taken⟩ (by rw [hcall]; simp)
      simp only at this
      omega
    have hfits := data.fits
    have htaken : (UInt64.ofNat taken).toNat = taken := by
      rw [UInt64.toNat_ofNat']
      omega
    have hnext : s.offers ++ [⟨data.data, (UInt64.ofNat taken).toNat⟩]
        = queue.writes.map offerOf := by
      rw [hcall, List.map_append, ← hoffers, htaken]
      rfl
    simp only
    split
    · refine ⟨hqueue, hidle, hworker, hnext, hreturned ▸ h.written, h.dropped, h.forwarded⟩
    · rename_i hall
      rw [UInt64.lt_iff_toNat_lt, data.bytes_toNat, htaken] at hall
      refine Inv.returns (s := { s with queue }) hqueue hidle hworker hnext
        (hreturned ▸ h.written) (by omega) ?_ h.forwarded
      rw [show data.data.length - (UInt64.ofNat taken).toNat = 0 by omega]
      exact h.dropped

theorem Inv.countDropped (h : Inv s) (hs : s.step .countDropped = some t) : Inv t := by
  simp only [step] at hs
  split at hs
  · rename_i data taken hcounting
    cases hs
    have hidle := h.engine
    have hoffers := h.offers
    have hflight : s.inFlight = [⟨data.data, taken.toNat⟩] := by
      unfold inFlight
      rw [hcounting]
    rw [hcounting] at hidle
    rw [hflight] at hoffers
    have hle : taken.toNat ≤ data.data.length := by
      have hmem : (⟨data.data, taken.toNat⟩ : Offer) ∈ s.queue.writes.map offerOf := by
        rw [← hoffers]
        simp
      obtain ⟨w, hw, hwo⟩ := List.mem_map.mp hmem
      have htake := h.queue.writes_take w hw
      obtain ⟨hdata, htaken⟩ := Offer.mk.inj hwo
      rw [← hdata, ← htaken]
      omega
    refine Inv.returns (s := { s with dropped := s.dropped + (data.bytes - taken) }) h.queue hidle
      h.worker hoffers h.written hle ?_ h.forwarded
    have hbytes : taken ≤ data.bytes := by
      rw [UInt64.le_iff_toNat_le, data.bytes_toNat]
      exact hle
    rw [UInt64.toNat_add, UInt64.toNat_sub_of_le _ _ hbytes, data.bytes_toNat, h.dropped,
      Nat.mod_add_mod]
    rfl
  · cases hs

theorem Inv.offer (h : Inv s) {data : Option Span} (hs : s.step (.offer data) = some t) :
    Inv t := by
  simp only [step] at hs
  split at hs
  · rename_i hidle
    match data with
    | none =>
      cases hs
      exact h
    | some data =>
      simp only at hs
      split at hs
      · cases hs
        exact h
      · rename_i hbytes
        obtain ⟨queue, hstep, rfl⟩ := Option.map_eq_some_iff.mp hs
        obtain ⟨hwrites, hreads, hconsumer, hcarries⟩ := System.write_begins hbytes hstep
        have hempty : s.inFlight = [] := inFlight_nil (by simp [hidle])
        refine ⟨h.queue.write hstep, hcarries, hconsumer ▸ h.worker, ?_, ?_, h.dropped,
          h.forwarded⟩
        · simp only [hwrites, ← h.offers, hempty]
          rfl
        · have hwritten := h.written
          unfold System.returned at hwritten ⊢
          simp only [hreads]
          exact hwritten
  · cases hs

theorem Inv.copyIn (h : Inv s) (hs : s.step .copyIn = some t) : Inv t := by
  simp only [step] at hs
  split at hs
  · rename_i data hwriting
    obtain ⟨queue, hstep, rfl⟩ := Option.map_eq_some_iff.mp hs
    have hcarries := h.engine
    rw [hwriting] at hcarries
    exact h.afterWrite hwriting (h.queue.copyIn hstep) (System.copyIn_writes hcarries hstep)
  · cases hs

theorem Inv.publishHead (h : Inv s) (hs : s.step .publishHead = some t) : Inv t := by
  simp only [step] at hs
  split at hs
  · rename_i data hwriting
    obtain ⟨queue, hstep, rfl⟩ := Option.map_eq_some_iff.mp hs
    have hcarries := h.engine
    rw [hwriting] at hcarries
    exact h.afterWrite hwriting (h.queue.publishHead hstep)
      (System.publishHead_writes hcarries hstep)
  · cases hs

/-! ## The worker -/

theorem Inv.look (h : Inv s) (hs : s.step .look = some t) : Inv t := by
  simp only [step] at hs
  split at hs
  · rename_i htop
    have hconsumer := h.worker
    have hwritten := h.written
    obtain ⟨counted, hcounted, hforwarded⟩ := h.forwarded
    unfold holds at hwritten
    unfold uncounted at hcounted
    rw [htop] at hconsumer hwritten hcounted
    split at hs
    · cases hs
      exact ⟨h.queue, h.engine, hconsumer, h.offers, hwritten, h.dropped,
        counted, hcounted, hforwarded⟩
    · obtain ⟨queue, hstep, rfl⟩ := Option.map_eq_some_iff.mp hs
      obtain ⟨hwrites, hreads, hproducer, hreading⟩ := System.read_begins (by decide) hstep
      refine ⟨h.queue.read hstep, hproducer ▸ h.engine, hreading, ?_, ?_, h.dropped,
        counted, hcounted, hforwarded⟩
      · simp only [hwrites]
        exact h.offers
      · unfold System.returned at hwritten ⊢
        simp only [hreads]
        exact hwritten
  · cases hs

theorem Inv.afterRead (h : Inv s) {queue : System} (hreading : s.worker = .reading)
    (hqueue : queue.Inv kQueueBytes) (hr : System.Reads s.queue queue) :
    Inv (s.afterRead queue) := by
  obtain ⟨hwrites, hproducer, hcase⟩ := hr
  have hengine : engineOk queue.producer s.engine := hproducer ▸ h.engine
  have hoffers : s.offers ++ s.inFlight = queue.writes.map offerOf := hwrites ▸ h.offers
  have hwritten := h.written
  obtain ⟨counted, hcounted, hforwarded⟩ := h.forwarded
  unfold holds at hwritten
  unfold uncounted at hcounted
  rw [hreading] at hwritten hcounted
  unfold BulkChannel.afterRead
  rcases hcase with ⟨hsame, hbusy⟩ | ⟨call, hcall, hidle⟩
  · rw [hsame, List.drop_length]
    refine ⟨hqueue, hengine, ?_, hoffers, ?_, h.dropped, h.forwarded⟩
    · simp only [hreading]
      exact hbusy
    · unfold System.returned at hwritten ⊢
      simp only [hsame, holds, hreading]
      exact hwritten
  · rw [hcall, List.drop_left]
    have hreturned : queue.returned = s.queue.returned ++ call.returned := by
      unfold System.returned
      rw [hcall, List.flatMap_append, List.flatMap_singleton]
    simp only
    split
    · rename_i hnone
      rw [hnone, List.append_nil] at hreturned
      exact ⟨hqueue, hengine, hidle, hoffers, hreturned ▸ hwritten, h.dropped,
        counted, hcounted, hforwarded⟩
    · refine ⟨hqueue, hengine, hidle, hoffers, ?_, h.dropped, counted, hcounted, hforwarded⟩
      refine hwritten.imp_right fun heq => ?_
      rw [List.append_nil] at heq
      rw [hreturned, heq]
      rfl

theorem Inv.copyOut (h : Inv s) (hs : s.step .copyOut = some t) : Inv t := by
  simp only [step] at hs
  split at hs
  · obtain ⟨queue, hstep, rfl⟩ := Option.map_eq_some_iff.mp hs
    exact h.afterRead ‹_› (h.queue.copyOut hstep) (System.copyOut_reads hstep)
  · cases hs

theorem Inv.publishTail (h : Inv s) (hs : s.step .publishTail = some t) : Inv t := by
  simp only [step] at hs
  split at hs
  · obtain ⟨queue, hstep, rfl⟩ := Option.map_eq_some_iff.mp hs
    exact h.afterRead ‹_› (h.queue.publishTail hstep) (System.publishTail_reads hstep)
  · cases hs

theorem Inv.write (h : Inv s) {succeeds : Bool} (hs : s.step (.write succeeds) = some t) :
    Inv t := by
  simp only [step] at hs
  split at hs
  · rename_i chunk hwriting
    have hconsumer := h.worker
    have hwritten := h.written
    obtain ⟨counted, hcounted, hforwarded⟩ := h.forwarded
    unfold holds at hwritten
    unfold uncounted at hcounted
    rw [hwriting] at hconsumer hwritten hcounted
    rw [List.append_nil] at hcounted
    split at hs
    · cases hs
      refine ⟨h.queue, h.engine, hconsumer, h.offers, ?_, h.dropped, counted, ?_, hforwarded⟩
      · simpa [holds] using hwritten
      · simp [uncounted, hcounted]
    · cases hs
      refine ⟨h.queue, h.engine, hconsumer, h.offers, .inl rfl, h.dropped, counted, ?_, hforwarded⟩
      simp [uncounted, hcounted]
  · cases hs

theorem Inv.countForwarded (h : Inv s) (hs : s.step .countForwarded = some t) : Inv t := by
  simp only [step] at hs
  split at hs
  · rename_i chunk hcounting
    cases hs
    have hconsumer := h.worker
    have hwritten := h.written
    obtain ⟨counted, hcounted, hforwarded⟩ := h.forwarded
    unfold holds at hwritten
    unfold uncounted at hcounted
    rw [hcounting] at hconsumer hwritten hcounted
    refine ⟨h.queue, h.engine, hconsumer, h.offers, ?_, h.dropped, s.written, ?_, ?_⟩
    · simpa [holds] using hwritten
    · simp [uncounted]
    · simp only [UInt64.toNat_add, UInt64.toNat_ofNat', hforwarded, hcounted, List.length_append]
      exact (Nat.add_mod _ _ _).symm
  · cases hs

theorem Inv.step (h : Inv s) {action : Action} (hs : s.step action = some t) : Inv t := by
  cases action with
  | offer data => exact h.offer hs
  | copyIn => exact h.copyIn hs
  | publishHead => exact h.publishHead hs
  | countDropped => exact h.countDropped hs
  | look => exact h.look hs
  | copyOut => exact h.copyOut hs
  | publishTail => exact h.publishTail hs
  | write succeeds => exact h.write hs
  | countForwarded => exact h.countForwarded hs
  | stop =>
    cases hs
    exact ⟨h.queue, h.engine, h.worker, h.offers, h.written, h.dropped, h.forwarded⟩

theorem Inv.reaches (h : Inv s) (hs : Runs.Reaches BulkChannel.step s t) : Inv t :=
  hs.invariant h fun _ _ _ h hstep => h.step hstep

end

/-- **Audio accounting.** As long as no write to the endpoint has failed, every byte accepted from
the engine is written, in the worker's hand or in the ring, in order; what was refused and what was
forwarded are counted, modulo 2 ^ 64. -/
theorem accounting {channel s : BulkChannel} (hcreate : create = some channel)
    (hs : Runs.Reaches step channel s) (hok : s.broken = false) : Accounted s :=
  ((create_inv hcreate).reaches hs).accounted hok

/-! ## Offers one after the other -/

/-- A call of `receive` that has begun and returned, with the worker left alone. -/
structure Received (data : Span) (s t : BulkChannel) : Prop where
  idle : t.engine = .idle
  offers : ∃ taken, t.offers = s.offers ++ [⟨data.data, taken⟩]
  worker : t.worker = s.worker
  broken : t.broken = s.broken
  written : t.written = s.written

section

variable {s : BulkChannel} {data : Span}

theorem returned_received {queue : System} {call : WriteCall}
    (hcall : queue.writes = s.queue.writes ++ [call]) :
    ∃ t, Runs.Reaches step (s.afterWrite data queue) t ∧ Received data s t := by
  unfold afterWrite
  rw [hcall, List.drop_left]
  simp only
  split
  · exact ⟨_, .one .countDropped rfl, rfl, ⟨_, rfl⟩, rfl, rfl, rfl⟩
  · exact ⟨_, .start, rfl, ⟨_, rfl⟩, rfl, rfl, rfl⟩

theorem copied_received (hwriting : s.engine = .writing data) {given : Span}
    {head taken : UInt64} {free : Nat}
    (hcopied : s.queue.producer = .copied given head taken free) :
    ∃ t, Runs.Reaches step s t ∧ Received data s t := by
  have hstep : ∃ queue call, s.queue.step .publishHead = some queue ∧
      queue.writes = s.queue.writes ++ [call] := by
    simp only [System.step, hcopied]
    exact ⟨_, _, rfl, rfl⟩
  obtain ⟨queue, call, hqueue, hcall⟩ := hstep
  obtain ⟨t, hreaches, hreceived⟩ := @returned_received _ data _ _ hcall
  refine ⟨t, .trans (.one .publishHead ?_) hreaches, hreceived⟩
  simp only [step, hwriting, hqueue, Option.map_some]

theorem loaded_received (hslots : s.queue.ring.slots ≠ 0) (hwriting : s.engine = .writing data)
    {given : Span} {head tail : UInt64} {free : Nat}
    (hloaded : s.queue.producer = .loaded given head tail free) :
    ∃ t, Runs.Reaches step s t ∧ Received data s t := by
  have hstep : ∃ queue, s.queue.step .copyIn = some queue ∧
      ((∃ call, queue.writes = s.queue.writes ++ [call]) ∨
        queue.writes = s.queue.writes ∧
          ∃ given head taken free, queue.producer = .copied given head taken free) := by
    simp only [System.step, hloaded, if_neg hslots]
    split
    · exact ⟨_, rfl, .inl ⟨_, rfl⟩⟩
    · exact ⟨_, rfl, .inr ⟨rfl, _, _, _, _, rfl⟩⟩
  obtain ⟨queue, hqueue, hcase⟩ := hstep
  have hnext : s.step .copyIn = some (s.afterWrite data queue) := by
    simp only [step, hwriting, hqueue, Option.map_some]
  rcases hcase with ⟨call, hcall⟩ | ⟨hsame, given', head', taken, free', hcopied⟩
  · obtain ⟨t, hreaches, hreceived⟩ := @returned_received _ data _ _ hcall
    exact ⟨t, .trans (.one .copyIn hnext) hreaches, hreceived⟩
  · have hafter : s.afterWrite data queue = { s with queue } := by
      unfold afterWrite
      rw [hsame, List.drop_length]
    rw [hafter] at hnext
    obtain ⟨t, hreaches, hreceived⟩ :=
      copied_received (s := { s with queue }) hwriting hcopied
    exact ⟨t, .trans (.one .copyIn hnext) hreaches, hreceived.idle, hreceived.offers,
      hreceived.worker, hreceived.broken, hreceived.written⟩

theorem Inv.receives (h : Inv s) (hidle : s.engine = .idle) (hbytes : data.bytes ≠ 0) :
    ∃ t, Runs.Reaches BulkChannel.step s t ∧ Received data s t := by
  have hproducer := h.engine
  rw [hidle] at hproducer
  change s.queue.producer = .idle at hproducer
  have hslots : s.queue.ring.slots ≠ 0 := by
    have := h.queue.good.slots_eq
    rw [Ne, toNat_eq_zero]
    omega
  have hstep : ∃ queue, s.queue.step (.write (some data)) = some queue ∧
      queue.ring = s.queue.ring ∧ ∃ head tail free, queue.producer = .loaded data head tail free := by
    simp only [System.step, hproducer, if_neg hbytes]
    exact ⟨_, rfl, rfl, _, _, _, rfl⟩
  obtain ⟨queue, hqueue, hring, head, tail, free, hloaded⟩ := hstep
  have hnext : s.step (.offer (some data)) = some { s with queue, engine := .writing data } := by
    simp only [BulkChannel.step, hidle, if_neg hbytes, hqueue, Option.map_some]
  obtain ⟨t, hreaches, hreceived⟩ := loaded_received
    (s := { s with queue, engine := .writing data }) (by rw [hring]; exact hslots) rfl hloaded
  exact ⟨t, .trans (.one _ hnext) hreaches, hreceived.idle, hreceived.offers,
    hreceived.worker, hreceived.broken, hreceived.written⟩

/-- Any number of offers of the same bytes, while the worker does nothing. -/
theorem Inv.receives_all (h : Inv s) (hidle : s.engine = .idle) (hbytes : data.bytes ≠ 0) (n : Nat) :
    ∃ t, Runs.Reaches BulkChannel.step s t ∧ t.engine = .idle ∧ t.worker = s.worker ∧
      t.broken = s.broken ∧ t.written = s.written ∧
      t.totalOffered = s.totalOffered + n * data.data.length := by
  induction n with
  | zero => exact ⟨s, .start, hidle, rfl, rfl, rfl, by simp⟩
  | succ n ih =>
    obtain ⟨u, hu, hidle', hworker, hbroken, hwritten, htotal⟩ := ih
    obtain ⟨t, ht, hreceived⟩ := (h.reaches hu).receives hidle' hbytes
    obtain ⟨taken, hoffers⟩ := hreceived.offers
    refine ⟨t, hu.trans ht, hreceived.idle, hreceived.worker.trans hworker,
      hreceived.broken.trans hbroken, hreceived.written.trans hwritten, ?_⟩
    have hnext : t.totalOffered = u.totalOffered + data.data.length := by
      simp [totalOffered, hoffers]
    rw [hnext, htotal, Nat.succ_mul]
    omega

end

theorem exists_create : ∃ channel, create = some channel := by
  have hsize : ¬ maxVectorSize < kQueueBytes + 1 := by decide
  unfold create RingBuffer.create
  rw [if_neg hsize]
  exact ⟨_, rfl⟩

def twoBytes : Span := ⟨ascii "ab", by decide⟩

/-- An offer of two bytes, and the worker that writes them. -/
def delivery : List Action :=
  [.offer (some twoBytes), .copyIn, .publishHead, .look, .copyOut, .publishTail, .write true,
    .countForwarded]

theorem accounting_delivered :
    ∃ channel s, create = some channel ∧ Runs.Reaches step channel s ∧ s.broken = false ∧
      s.written = ascii "ab" ∧ s.forwarded = 2 ∧ Accounted s := by
  have hdelivered : ((create.bind (delivery.foldlM step)).any fun s =>
      !s.broken && s.written == ascii "ab" && s.forwarded == 2) = true := by decide +kernel
  obtain ⟨s, hs, hcounts⟩ := (Option.any_eq_true _ _).mp hdelivered
  obtain ⟨channel, hcreate, hrun⟩ := Option.bind_eq_some_iff.mp hs
  have hreaches := Runs.reaches_of_run hrun
  simp only [Bool.and_eq_true, Bool.not_eq_true', beq_iff_eq] at hcounts
  obtain ⟨⟨hok, hwritten⟩, hforwarded⟩ := hcounts
  exact ⟨channel, s, hcreate, hreaches, hok, hwritten, hforwarded, accounting hcreate hreaches hok⟩

theorem exists_span {n : Nat} (h : n < 2 ^ 64) : ∃ data : Span, data.data.length = n :=
  ⟨⟨List.replicate n 0, by rw [List.length_replicate]; exact h⟩, List.length_replicate⟩

/-- A host that never reads, and an engine that goes on: 2 ^ 36 offers of 2 ^ 30 bytes. -/
theorem accounting_fails_past_max :
    ¬ ∀ channel s, create = some channel → Runs.Reaches step channel s → s.broken = false →
      s.engine = .idle → s.dropped.toNat = s.totalOffered - s.totalAccepted := by
  intro h
  obtain ⟨channel, hcreate⟩ := exists_create
  have hfresh : channel.engine = .idle ∧ channel.broken = false ∧ channel.totalOffered = 0 ∧
      channel.worker = .top ∧ channel.written = [] := by
    obtain ⟨ring, -, rfl⟩ := Option.map_eq_some_iff.mp hcreate
    exact ⟨rfl, rfl, rfl, rfl, rfl⟩
  obtain ⟨hidle, hok, hnone, htop, hunwritten⟩ := hfresh
  obtain ⟨data, hlength⟩ := exists_span (n := 2 ^ 30) (by decide)
  have hbytes : data.bytes ≠ 0 := by
    rw [Ne, toNat_eq_zero, data.bytes_toNat, hlength]
    decide
  obtain ⟨s, hs, hidle', hworker, hbroken, hwritten, htotal⟩ :=
    (create_inv hcreate).receives_all hidle hbytes (2 ^ 36)
  have hinv := (create_inv hcreate).reaches hs
  -- All that was accepted is still in the ring.
  have haccepted : s.totalAccepted = s.queue.ring.held.length := by
    have hbytes := (hinv.accounted (hbroken.trans hok)).bytes
    have hempty : s.inFlight = [] := inFlight_nil (by simp [hidle'])
    rw [accepted, hempty, List.append_nil, hwritten, hunwritten] at hbytes
    unfold totalAccepted
    rw [hbytes]
    simp [holds, hworker, htop]
  have hheld := hinv.queue.good.held_length
  have hcapacity := hinv.queue.good.heldCount_le
  have hqueue : kQueueBytes.toNat = 131072 := by decide
  have hexact := h channel s hcreate hs (hbroken.trans hok) hidle'
  have hlt := s.dropped.toNat_lt
  rw [hnone, hlength] at htotal
  omega

end BulkChannel

end OakBarrels.Bulk
