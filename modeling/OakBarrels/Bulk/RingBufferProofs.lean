import OakBarrels.Bulk.RingBuffer

/-!
# The ring buffer is a queue

What each step keeps, from either thread, and from it what holds in every run of the two.
-/

open Octets Circular

namespace OakBarrels.Bulk

theorem toNat_min (a b : UInt64) : (min a b).toNat = min a.toNat b.toNat := by
  have hmin : min a b = if a ≤ b then a else b := rfl
  rw [hmin]
  split
  · rename_i h
    exact (Nat.min_eq_left (UInt64.le_iff_toNat_le.mp h)).symm
  · rename_i h
    exact (Nat.min_eq_right (by have := mt UInt64.le_iff_toNat_le.mpr h; omega)).symm

theorem Span.bytes_toNat (s : Span) : s.bytes.toNat = s.data.length := by
  have := s.fits
  simp [Span.bytes]
  omega

theorem toNat_eq_zero {a : UInt64} : a = 0 ↔ a.toNat = 0 := by
  rw [← UInt64.toNat_inj]
  rfl

namespace RingBuffer

/-! ## One buffer -/

structure Good (capacity : UInt64) (r : RingBuffer) : Prop where
  usable_eq : r.usable = capacity
  slots_eq : r.slots.toNat = capacity.toNat + 1
  slots_lt : r.slots.toNat < 2 ^ 63
  length_eq : r.storage.length = r.slots.toNat
  head_lt : r.head.toNat < r.slots.toNat
  tail_lt : r.tail.toNat < r.slots.toNat

def heldCount (r : RingBuffer) : Nat := count r.slots.toNat r.tail.toNat r.head.toNat

theorem create_good {capacity : UInt64} {r : RingBuffer} (h : create capacity = some r)
    (hc : capacity.toNat ≠ 2 ^ 64 - 1) : Good capacity r := by
  unfold create at h
  split at h
  · cases h
  · rename_i hfits
    cases h
    have hlt := capacity.toNat_lt
    have hsum : (capacity + 1).toNat = capacity.toNat + 1 := by
      simp
      omega
    have hle : (capacity + 1).toNat ≤ 0x7fffffffffffffff :=
      UInt64.le_iff_toNat_le.mp (UInt64.not_lt.mp hfits)
    exact ⟨rfl, hsum, by simp only; omega, by simp, by simp [hsum], by simp [hsum]⟩

section

variable {capacity : UInt64} {r : RingBuffer}

theorem Good.used_toNat (hr : Good capacity r) {head tail : UInt64}
    (hhead : head.toNat < r.slots.toNat) (htail : tail.toNat < r.slots.toNat) :
    (r.used head tail).toNat = count r.slots.toNat tail.toNat head.toNat := by
  have := hr.slots_lt
  have hsum : (head + r.slots).toNat = head.toNat + r.slots.toNat := by
    rw [UInt64.toNat_add, Nat.mod_eq_of_lt (by omega)]
  have hle : tail ≤ head + r.slots := UInt64.le_iff_toNat_le.mpr (by omega)
  unfold used count
  rw [UInt64.toNat_mod, UInt64.toNat_sub_of_le _ _ hle, hsum]

theorem Good.writable_toNat (hr : Good capacity r) {head tail : UInt64} (bytes : UInt64)
    (hhead : head.toNat < r.slots.toNat) (htail : tail.toNat < r.slots.toNat) :
    (r.writable head tail bytes).toNat
      = min bytes.toNat (capacity.toNat - count r.slots.toNat tail.toNat head.toNat) := by
  have hslots := hr.slots_eq
  have hused := hr.used_toNat hhead htail
  have hcount := count_lt tail.toNat hhead
  have hone : (1 : UInt64) ≤ r.slots := UInt64.le_iff_toNat_le.mpr (by simp; omega)
  have hlast : (r.slots - 1).toNat = capacity.toNat := by
    rw [UInt64.toNat_sub_of_le _ _ hone]
    simp
    omega
  have hle : r.used head tail ≤ r.slots - 1 := UInt64.le_iff_toNat_le.mpr (by omega)
  unfold writable
  rw [toNat_min, UInt64.toNat_sub_of_le _ _ hle, hlast, hused]

theorem Good.readable_toNat (hr : Good capacity r) {head tail : UInt64} (wanted : UInt64)
    (hhead : head.toNat < r.slots.toNat) (htail : tail.toNat < r.slots.toNat) :
    (r.readable tail head wanted).toNat
      = min wanted.toNat (count r.slots.toNat tail.toNat head.toNat) := by
  unfold readable
  rw [toNat_min, hr.used_toNat hhead htail]

theorem Good.advance_toNat (hr : Good capacity r) {index taken : UInt64}
    (hindex : index.toNat < r.slots.toNat) (htaken : taken.toNat ≤ capacity.toNat) :
    ((index + taken) % r.slots).toNat = (index.toNat + taken.toNat) % r.slots.toNat := by
  have := hr.slots_lt
  have := hr.slots_eq
  rw [UInt64.toNat_mod, UInt64.toNat_add, Nat.mod_eq_of_lt (a := _ + _) (by omega)]

theorem Good.held_eq (hr : Good capacity r) :
    r.held = (r.storage.rotate r.tail.toNat).take r.heldCount := by
  have hlen := hr.length_eq
  unfold held heldCount
  rw [between_eq_take (by rw [hlen]; exact hr.tail_lt) (by rw [hlen]; exact hr.head_lt), hlen]

theorem Good.heldCount_le (hr : Good capacity r) : r.heldCount ≤ capacity.toNat := by
  have := count_lt r.tail.toNat hr.head_lt
  have := hr.slots_eq
  unfold heldCount
  omega

theorem Good.held_length (hr : Good capacity r) : r.held.length = r.heldCount := by
  have := hr.heldCount_le
  have := hr.slots_eq
  have := hr.length_eq
  rw [hr.held_eq]
  simp
  omega

/-- The two runs of a call: up to the end of the storage, and from its start. -/
theorem firstRun_toNat {start : UInt64} (taken : UInt64) (hstart : start.toNat < r.slots.toNat) :
    (min taken (r.slots - start)).toNat = min taken.toNat (r.slots.toNat - start.toNat) := by
  have hle : start ≤ r.slots := UInt64.le_iff_toNat_le.mpr hstart.le
  rw [toNat_min, UInt64.toNat_sub_of_le _ _ hle]

theorem secondRun_toNat {start : UInt64} (taken : UInt64) (hstart : start.toNat < r.slots.toNat) :
    (taken - min taken (r.slots - start)).toNat
      = taken.toNat - min taken.toNat (r.slots.toNat - start.toNat) := by
  have hfirst := firstRun_toNat taken hstart
  have hle : min taken (r.slots - start) ≤ taken := UInt64.le_iff_toNat_le.mpr (by omega)
  rw [UInt64.toNat_sub_of_le _ _ hle, hfirst]

theorem Good.copyIn_eq (hr : Good capacity r) {head taken : UInt64} {data : Bytes}
    (hhead : head.toNat < r.slots.toNat) (htaken : taken.toNat ≤ data.length) :
    r.copyIn head data taken
      = { r with storage := put r.storage head.toNat (data.take taken.toNat) } := by
  have hfirst := firstRun_toNat taken hhead
  have hsecond := secondRun_toNat taken hhead
  have hlen : (data.take taken.toNat).length = taken.toNat := by simpa using htaken
  unfold copyIn put
  simp only [UInt64.lt_iff_toNat_lt, hfirst, hsecond, hlen, hr.length_eq, List.take_take,
    List.drop_take]
  split
  · simp
  · rename_i h
    have hall : min taken.toNat (r.slots.toNat - head.toNat) = taken.toNat := by omega
    simp [hall]

theorem Good.copyOut_eq (hr : Good capacity r) {tail taken : UInt64}
    (htail : tail.toNat < r.slots.toNat) :
    r.copyOut tail taken = Circular.get r.storage tail.toNat taken.toNat := by
  have hfirst := firstRun_toNat taken htail
  have hsecond := secondRun_toNat taken htail
  unfold copyOut Circular.get
  simp only [UInt64.lt_iff_toNat_lt, hfirst, hsecond, hr.length_eq]
  split
  · rfl
  · rename_i h
    have hall : min taken.toNat (r.slots.toNat - tail.toNat) = taken.toNat := by omega
    simp [hall]

/-- A copy that fits the free space touches nothing that is held, and is what follows it. -/
theorem Good.copyIn (hr : Good capacity r) {data : Bytes} {taken : UInt64}
    (htaken : taken.toNat ≤ data.length) (hroom : r.heldCount + taken.toNat ≤ capacity.toNat) :
    Good capacity (r.copyIn r.head data taken) ∧ (r.copyIn r.head data taken).held = r.held ∧
      ((r.copyIn r.head data taken).storage.rotate r.tail.toNat).take (r.heldCount + taken.toNat)
        = r.held ++ data.take taken.toNat := by
  have hslots := hr.slots_eq
  have hlen := hr.length_eq
  have hdata : (data.take taken.toNat).length = taken.toNat := by simpa using htaken
  have hcount : count r.storage.length r.tail.toNat r.head.toNat = r.heldCount := by
    rw [hlen]
    rfl
  have hput := take_rotate_put (data.take taken.toNat) (hr.tail_lt.trans_eq hlen.symm)
    (hr.head_lt.trans_eq hlen.symm) (by rw [hcount, hdata]; omega)
  rw [hcount, hdata, ← hr.held_eq] at hput
  rw [hr.copyIn_eq hr.head_lt htaken]
  have hgood : Good capacity
      { r with storage := put r.storage r.head.toNat (data.take taken.toNat) } :=
    ⟨hr.usable_eq, hr.slots_eq, hr.slots_lt,
      (put_length (hr.head_lt.trans_eq hlen.symm) (by omega)).trans hlen, hr.head_lt, hr.tail_lt⟩
  refine ⟨hgood, ?_, hput⟩
  have hheld := congrArg (List.take r.heldCount) hput
  rw [List.take_take, Nat.min_eq_left (by omega), List.take_left' hr.held_length] at hheld
  exact hgood.held_eq.trans hheld

theorem Good.publishHead (hr : Good capacity r) {taken : UInt64} {data : Bytes}
    (hroom : r.heldCount + taken.toNat ≤ capacity.toNat)
    (hdata : (r.storage.rotate r.tail.toNat).take (r.heldCount + taken.toNat) = r.held ++ data) :
    Good capacity (r.publishHead r.head taken) ∧
      (r.publishHead r.head taken).heldCount = r.heldCount + taken.toNat ∧
      (r.publishHead r.head taken).held = r.held ++ data := by
  have hslots := hr.slots_eq
  have hhead : (r.publishHead r.head taken).head.toNat
      = (r.head.toNat + taken.toNat) % r.slots.toNat := hr.advance_toNat hr.head_lt (by omega)
  have hgood : Good capacity (r.publishHead r.head taken) :=
    ⟨hr.usable_eq, hr.slots_eq, hr.slots_lt, hr.length_eq,
      hhead.trans_lt (Nat.mod_lt _ (by omega)), hr.tail_lt⟩
  have hcount : (r.publishHead r.head taken).heldCount = r.heldCount + taken.toNat := by
    have h := count_advance_stop (k := taken.toNat) hr.tail_lt hr.head_lt
      (by unfold heldCount at hroom; omega)
    rw [← hhead] at h
    exact h
  refine ⟨hgood, hcount, ?_⟩
  rw [hgood.held_eq, hcount]
  exact hdata

theorem Good.publishTail (hr : Good capacity r) {taken : UInt64}
    (htaken : taken.toNat ≤ r.heldCount) :
    Good capacity (r.publishTail r.tail taken) ∧
      (r.publishTail r.tail taken).heldCount = r.heldCount - taken.toNat ∧
      (r.publishTail r.tail taken).held = r.held.drop taken.toNat ∧
      ∀ m, taken.toNat ≤ m → m ≤ r.slots.toNat →
        (r.storage.rotate (r.publishTail r.tail taken).tail.toNat).take (m - taken.toNat)
          = ((r.storage.rotate r.tail.toNat).take m).drop taken.toNat := by
  have hslots := hr.slots_eq
  have hle := hr.heldCount_le
  have htail : (r.publishTail r.tail taken).tail.toNat
      = (r.tail.toNat + taken.toNat) % r.slots.toNat := hr.advance_toNat hr.tail_lt (by omega)
  have hgood : Good capacity (r.publishTail r.tail taken) :=
    ⟨hr.usable_eq, hr.slots_eq, hr.slots_lt, hr.length_eq, hr.head_lt,
      htail.trans_lt (Nat.mod_lt _ (by omega))⟩
  have hcount : (r.publishTail r.tail taken).heldCount = r.heldCount - taken.toNat := by
    have h := count_advance_start hr.tail_lt hr.head_lt htaken
    rw [← htail] at h
    exact h
  have hadvance : ∀ m, taken.toNat ≤ m → m ≤ r.slots.toNat →
      (r.storage.rotate (r.publishTail r.tail taken).tail.toNat).take (m - taken.toNat)
        = ((r.storage.rotate r.tail.toNat).take m).drop taken.toNat := by
    intro m hkm hm
    have h := take_rotate_advance r.tail.toNat (hm.trans_eq hr.length_eq.symm) hkm
    rwa [hr.length_eq, ← htail] at h
  refine ⟨hgood, hcount, ?_, hadvance⟩
  rw [hgood.held_eq, hcount, hr.held_eq]
  exact hadvance _ htaken (by omega)

theorem Good.copyOut (hr : Good capacity r) {taken : UInt64} (htaken : taken.toNat ≤ r.heldCount) :
    r.copyOut r.tail taken = r.held.take taken.toNat := by
  have hle := hr.heldCount_le
  have hslots := hr.slots_eq
  have hlen := hr.length_eq
  rw [hr.copyOut_eq hr.tail_lt, get_eq_take (hr.tail_lt.trans_eq hlen.symm) (by omega), hr.held_eq,
    List.take_take, Nat.min_eq_left htaken]

end

end RingBuffer

/-! ## The calls in progress -/

open RingBuffer (Good)

section

variable {capacity : UInt64} {r : RingBuffer}

def Producer.Ok (capacity : UInt64) (r : RingBuffer) : Producer → Prop
  | .idle => True
  | .loaded _ head tail free =>
    head = r.head ∧ tail.toNat < r.slots.toNat ∧
      r.heldCount ≤ count r.slots.toNat tail.toNat head.toNat ∧
      free = capacity.toNat - count r.slots.toNat tail.toNat head.toNat
  | .copied data head taken free =>
    head = r.head ∧ taken.toNat = min data.data.length free ∧
      r.heldCount + taken.toNat ≤ capacity.toNat ∧
      (r.storage.rotate r.tail.toNat).take (r.heldCount + taken.toNat)
        = r.held ++ data.data.take taken.toNat

def Consumer.Ok (r : RingBuffer) : Consumer → Prop
  | .idle => True
  | .loaded _ tail head held =>
    tail = r.tail ∧ head.toNat < r.slots.toNat ∧
      held = count r.slots.toNat tail.toNat head.toNat ∧ held ≤ r.heldCount
  | .copied capacity out tail taken held =>
    tail = r.tail ∧ taken.toNat = min capacity.toNat held ∧ taken.toNat ≤ r.heldCount ∧
      out = r.held.take taken.toNat

/-- The consumer goes on while the producer copies into what is free. -/
theorem Consumer.Ok.copyIn {consumer : Consumer} (h : consumer.Ok r) (hr : Good capacity r)
    {data : Bytes} {taken : UInt64} (htaken : taken.toNat ≤ data.length)
    (hroom : r.heldCount + taken.toNat ≤ capacity.toNat) :
    consumer.Ok (r.copyIn r.head data taken) := by
  obtain ⟨-, hheld, -⟩ := hr.copyIn htaken hroom
  rw [hr.copyIn_eq hr.head_lt htaken] at hheld ⊢
  cases consumer with
  | idle => trivial
  | loaded wanted tail head held => exact h
  | copied wanted out tail taken' held =>
    obtain ⟨htail, hmin, hle, hout⟩ := h
    exact ⟨htail, hmin, hle, hout.trans (by rw [hheld])⟩

theorem Consumer.Ok.publishHead {consumer : Consumer} (h : consumer.Ok r) (hr : Good capacity r)
    {taken : UInt64} {data : Bytes} (hroom : r.heldCount + taken.toNat ≤ capacity.toNat)
    (hdata : (r.storage.rotate r.tail.toNat).take (r.heldCount + taken.toNat) = r.held ++ data) :
    consumer.Ok (r.publishHead r.head taken) := by
  obtain ⟨-, hcount, hheld⟩ := hr.publishHead hroom hdata
  cases consumer with
  | idle => trivial
  | loaded wanted tail head held =>
    obtain ⟨htail, hhead, hcount', hle⟩ := h
    exact ⟨htail, hhead, hcount', by omega⟩
  | copied wanted out tail taken' held =>
    obtain ⟨htail, hmin, hle, hout⟩ := h
    refine ⟨htail, hmin, by omega, ?_⟩
    rw [hheld, List.take_append_of_le_length (by rw [hr.held_length]; exact hle)]
    exact hout

theorem Producer.Ok.publishTail {producer : Producer} (h : producer.Ok capacity r)
    (hr : Good capacity r) {taken : UInt64} (htaken : taken.toNat ≤ r.heldCount) :
    producer.Ok capacity (r.publishTail r.tail taken) := by
  obtain ⟨-, hcount, hheld, hadvance⟩ := hr.publishTail htaken
  cases producer with
  | idle => trivial
  | loaded data head tail free =>
    obtain ⟨hhead, htail, hle, hfree⟩ := h
    exact ⟨hhead, htail, by rw [hcount]; exact (Nat.sub_le _ _).trans hle, hfree⟩
  | copied data head taken' free =>
    obtain ⟨hhead, hmin, hroom, hdata⟩ := h
    have hslots := hr.slots_eq
    refine ⟨hhead, hmin, by omega, ?_⟩
    have h := hadvance (r.heldCount + taken'.toNat) (by omega) (by omega)
    rw [hdata, List.drop_append_of_le_length (by rw [hr.held_length]; exact htaken)] at h
    rw [hcount, hheld, ← h]
    congr 1
    omega

end

namespace System

/-! ## Every step -/

structure Inv (capacity : UInt64) (s : System) : Prop where
  good : Good capacity s.ring
  producer : Producer.Ok capacity s.ring s.producer
  consumer : Consumer.Ok s.ring s.consumer
  published_eq : s.published = s.returned ++ s.ring.held
  writes_take : ∀ w ∈ s.writes, w.taken = min w.offered.length w.free
  reads_take : ∀ r ∈ s.reads, r.returned.length = min r.requested r.held

variable {capacity : UInt64} {s t : System}

theorem start_inv {ring : RingBuffer} (h : RingBuffer.create capacity = some ring)
    (hc : capacity.toNat ≠ 2 ^ 64 - 1) : Inv capacity (start ring) := by
  have hgood := RingBuffer.create_good h hc
  refine ⟨hgood, trivial, trivial, ?_, by simp [start], by simp [start]⟩
  have hheld : ring.held = [] := by
    unfold RingBuffer.create at h
    split at h
    · cases h
    · cases h
      simp [RingBuffer.held, between]
  simp [start, published, returned, hheld]

theorem Inv.writeReturns (h : Inv capacity s) {offered : Bytes} {free : Nat}
    (htaken : min offered.length free = 0) : Inv capacity (s.writeReturns ⟨offered, free, 0⟩) := by
  refine ⟨h.good, trivial, h.consumer, ?_, ?_, h.reads_take⟩
  · have hpub := h.published_eq
    simpa [published, returned, System.writeReturns] using hpub
  · intro w hw
    simp only [System.writeReturns, List.mem_append, List.mem_singleton] at hw
    rcases hw with hw | rfl
    · exact h.writes_take w hw
    · exact htaken.symm

theorem Inv.readReturns (h : Inv capacity s) {requested held : Nat}
    (htaken : min requested held = 0) : Inv capacity (s.readReturns ⟨requested, held, []⟩) := by
  refine ⟨h.good, h.producer, trivial, ?_, h.writes_take, ?_⟩
  · have hpub := h.published_eq
    simpa [published, returned, System.readReturns] using hpub
  · intro r hr
    simp only [System.readReturns, List.mem_append, List.mem_singleton] at hr
    rcases hr with hr | rfl
    · exact h.reads_take r hr
    · exact htaken.symm

theorem Inv.write (h : Inv capacity s) {data : Option Span} (hs : s.step (.write data) = some t) :
    Inv capacity t := by
  simp only [step] at hs
  split at hs
  · rename_i hidle
    cases data with
    | none =>
      cases hs
      exact h.writeReturns (by simp)
    | some data =>
      simp only at hs
      split at hs
      · rename_i hzero
        cases hs
        rw [toNat_eq_zero, data.bytes_toNat] at hzero
        exact h.writeReturns (by simp [hzero])
      · cases hs
        refine ⟨h.good, ⟨rfl, h.good.tail_lt, le_refl _, ?_⟩, h.consumer, h.published_eq,
          h.writes_take, h.reads_take⟩
        unfold RingBuffer.free RingBuffer.capacity
        rw [h.good.held_length, h.good.usable_eq]
        rfl
  · cases hs

theorem Inv.copyIn (h : Inv capacity s) (hs : s.step .copyIn = some t) : Inv capacity t := by
  simp only [step] at hs
  split at hs
  · rename_i data head tail free hloaded
    have hok := h.producer
    rw [hloaded] at hok
    obtain ⟨rfl, htail, hheld, hfree⟩ := hok
    have htaken := h.good.writable_toNat data.bytes h.good.head_lt htail
    rw [data.bytes_toNat, ← hfree] at htaken
    split at hs
    · cases hs
    · split at hs
      · rename_i hnone
        cases hs
        rw [toNat_eq_zero] at hnone
        exact h.writeReturns (by omega)
      · cases hs
        have hlt := count_lt tail.toNat h.good.head_lt
        have hslots := h.good.slots_eq
        have hroom : s.ring.heldCount + (s.ring.writable s.ring.head tail data.bytes).toNat
            ≤ capacity.toNat := by omega
        have hle : (s.ring.writable s.ring.head tail data.bytes).toNat ≤ data.data.length := by
          omega
        obtain ⟨hgood, hheld', hdata⟩ := h.good.copyIn hle hroom
        have hcount : (s.ring.copyIn s.ring.head data.data
            (s.ring.writable s.ring.head tail data.bytes)).heldCount = s.ring.heldCount := by
          rw [h.good.copyIn_eq h.good.head_lt hle]
          rfl
        have htail' : (s.ring.copyIn s.ring.head data.data
            (s.ring.writable s.ring.head tail data.bytes)).tail = s.ring.tail := by
          rw [h.good.copyIn_eq h.good.head_lt hle]
        have hhead' : (s.ring.copyIn s.ring.head data.data
            (s.ring.writable s.ring.head tail data.bytes)).head = s.ring.head := by
          rw [h.good.copyIn_eq h.good.head_lt hle]
        refine ⟨hgood, ⟨hhead'.symm, htaken, by rw [hcount]; exact hroom, ?_⟩,
          h.consumer.copyIn h.good hle hroom, ?_, h.writes_take, h.reads_take⟩
        · simp only
          rw [hcount, htail', hheld']
          exact hdata
        · simp only [published, returned] at *
          rw [hheld']
          exact h.published_eq
  · cases hs

theorem Inv.publishHead (h : Inv capacity s) (hs : s.step .publishHead = some t) :
    Inv capacity t := by
  simp only [step] at hs
  split at hs
  · rename_i data head taken free hcopied
    cases hs
    have hok := h.producer
    rw [hcopied] at hok
    obtain ⟨rfl, htaken, hroom, hdata⟩ := hok
    obtain ⟨hgood, -, hheld⟩ := h.good.publishHead hroom hdata
    refine ⟨hgood, trivial, h.consumer.publishHead h.good hroom hdata, ?_, ?_, h.reads_take⟩
    · have hpub := h.published_eq
      simp only [published, returned, System.writeReturns, List.flatMap_append,
        List.flatMap_singleton] at hpub ⊢
      rw [hheld, hpub, List.append_assoc]
    · intro w hw
      simp only [System.writeReturns, List.mem_append, List.mem_singleton] at hw
      rcases hw with hw | rfl
      · exact h.writes_take w hw
      · exact htaken
  · cases hs

theorem Inv.read (h : Inv capacity s) {wanted : Option UInt64}
    (hs : s.step (.read wanted) = some t) : Inv capacity t := by
  simp only [step] at hs
  split at hs
  · cases wanted with
    | none =>
      cases hs
      exact h.readReturns (by simp)
    | some wanted =>
      simp only at hs
      split at hs
      · cases hs
        exact h.readReturns (by simp)
      · cases hs
        exact ⟨h.good, h.producer, ⟨rfl, h.good.head_lt, h.good.held_length,
          h.good.held_length.le⟩, h.published_eq, h.writes_take, h.reads_take⟩
  · cases hs

theorem Inv.copyOut (h : Inv capacity s) (hs : s.step .copyOut = some t) : Inv capacity t := by
  simp only [step] at hs
  split at hs
  · rename_i wanted tail head held hloaded
    have hok := h.consumer
    rw [hloaded] at hok
    obtain ⟨rfl, hhead, hheld, hle⟩ := hok
    have htaken := h.good.readable_toNat wanted hhead h.good.tail_lt
    rw [← hheld] at htaken
    split at hs
    · cases hs
    · split at hs
      · rename_i hnone
        cases hs
        rw [toNat_eq_zero] at hnone
        exact h.readReturns (by omega)
      · cases hs
        have hle' : (s.ring.readable s.ring.tail head wanted).toNat ≤ s.ring.heldCount := by omega
        exact ⟨h.good, h.producer, ⟨rfl, htaken, hle', h.good.copyOut hle'⟩, h.published_eq,
          h.writes_take, h.reads_take⟩
  · cases hs

theorem Inv.publishTail (h : Inv capacity s) (hs : s.step .publishTail = some t) :
    Inv capacity t := by
  simp only [step] at hs
  split at hs
  · rename_i wanted out tail taken held hcopied
    cases hs
    have hok := h.consumer
    rw [hcopied] at hok
    obtain ⟨rfl, htaken, hle, hout⟩ := hok
    obtain ⟨hgood, -, hheld, -⟩ := h.good.publishTail hle
    refine ⟨hgood, h.producer.publishTail h.good hle, trivial, ?_, h.writes_take, ?_⟩
    · have hpub := h.published_eq
      simp only [published, returned, System.readReturns, List.flatMap_append,
        List.flatMap_singleton] at hpub ⊢
      rw [hheld, hpub, List.append_assoc, hout, List.take_append_drop]
    · intro r hr
      simp only [System.readReturns, List.mem_append, List.mem_singleton] at hr
      rcases hr with hr | rfl
      · exact h.reads_take r hr
      · have := h.good.held_length
        simp only [hout, List.length_take]
        omega
  · cases hs

theorem Inv.step (h : Inv capacity s) {action : Action} (hs : s.step action = some t) :
    Inv capacity t := by
  cases action with
  | write data => exact h.write hs
  | copyIn => exact h.copyIn hs
  | publishHead => exact h.publishHead hs
  | read wanted => exact h.read hs
  | copyOut => exact h.copyOut hs
  | publishTail => exact h.publishTail hs

/-! ## The cells -/

theorem mem_cells {r : RingBuffer} {start taken : UInt64} (hstart : start.toNat < r.slots.toNat)
    {x : Nat} :
    x ∈ cells r start taken ↔
      (start.toNat ≤ x ∧ x < start.toNat + taken.toNat ∧ x < r.slots.toNat) ∨
        x + r.slots.toNat < start.toNat + taken.toNat := by
  unfold cells
  simp only [List.mem_append, List.mem_range'_1, List.mem_range,
    RingBuffer.firstRun_toNat taken hstart, RingBuffer.secondRun_toNat taken hstart]
  omega

theorem size_toNat {r : RingBuffer} (hr : Good capacity r) : r.size.toNat = r.heldCount :=
  hr.used_toNat hr.head_lt hr.tail_lt

/-- A stretch behind the head that leaves the tail alone holds no cell that is held. -/
theorem disjoint_cells {r : RingBuffer} (hr : Good capacity r) {taken : UInt64}
    (hroom : r.heldCount + taken.toNat ≤ capacity.toNat) :
    (cells r r.head taken).Disjoint (cells r r.tail r.size) := by
  intro x hwriting hreadable
  rw [mem_cells hr.head_lt] at hwriting
  rw [mem_cells hr.tail_lt, size_toNat hr] at hreadable
  have hslots := hr.slots_eq
  have hhead := hr.head_lt
  have htail := hr.tail_lt
  unfold RingBuffer.heldCount at *
  rcases Nat.lt_or_ge r.head.toNat r.tail.toNat with h | h
  · rw [count_of_lt htail h] at *
    omega
  · rw [count_of_le hhead h] at *
    omega

theorem cells_subset {r : RingBuffer} (hr : Good capacity r) {taken : UInt64}
    (htaken : taken.toNat ≤ r.heldCount) : cells r r.tail taken ⊆ cells r r.tail r.size := by
  intro x hx
  rw [mem_cells hr.tail_lt] at hx ⊢
  rw [size_toNat hr]
  omega

theorem Inv.disjoint (h : Inv capacity s) : s.writing.Disjoint s.readable := by
  have hok := h.producer
  unfold writing readable
  cases hp : s.producer with
  | idle => exact List.disjoint_nil_left _
  | loaded data head tail free =>
    rw [hp] at hok
    obtain ⟨rfl, htail, hheld, -⟩ := hok
    have htaken := h.good.writable_toNat data.bytes h.good.head_lt htail
    have hlt := count_lt tail.toNat h.good.head_lt
    have hslots := h.good.slots_eq
    exact disjoint_cells h.good (by omega)
  | copied data head taken free =>
    rw [hp] at hok
    obtain ⟨rfl, -, hroom, -⟩ := hok
    exact disjoint_cells h.good hroom

theorem Inv.reading_subset (h : Inv capacity s) : s.reading ⊆ s.readable := by
  have hok := h.consumer
  unfold reading readable
  cases hc : s.consumer with
  | idle => exact List.nil_subset _
  | loaded wanted tail head held =>
    rw [hc] at hok
    obtain ⟨rfl, hhead, hheld, hle⟩ := hok
    have htaken := h.good.readable_toNat wanted hhead h.good.tail_lt
    exact cells_subset h.good (by omega)
  | copied wanted out tail taken held =>
    rw [hc] at hok
    obtain ⟨rfl, -, hle, -⟩ := hok
    exact cells_subset h.good hle

theorem Inv.fifo (h : Inv capacity s) : Fifo capacity s where
  returned_prefix := by
    unfold accepted
    rw [h.published_eq, List.append_assoc]
    exact List.prefix_append _ _
  published_eq := h.published_eq
  held_le := by
    rw [h.good.held_length]
    exact h.good.heldCount_le
  disjoint := h.disjoint
  reading_subset := h.reading_subset
  writes_take := h.writes_take
  reads_take := h.reads_take
  head_lt := UInt64.lt_iff_toNat_lt.mpr h.good.head_lt
  tail_lt := UInt64.lt_iff_toNat_lt.mpr h.good.tail_lt

/-- The one capacity whose count of slots wraps to none. -/
theorem not_fifo_of_no_slots :
    ∃ ring, RingBuffer.create 0xffffffffffffffff = some ring ∧
      ¬ (start ring).Fifo 0xffffffffffffffff :=
  ⟨⟨[], 0, 0xffffffffffffffff, 0, 0⟩, by decide, fun h => absurd h.head_lt (by decide)⟩

/-- **The ring buffer is a bounded queue.** In every run of the two threads, for exactly the
capacities that leave room for the one slot more. -/
theorem fifo_iff (capacity : UInt64) :
    (∀ ring s, RingBuffer.create capacity = some ring → Runs.Reaches step (start ring) s →
      s.Fifo capacity) ↔ capacity ≠ 0xffffffffffffffff := by
  constructor
  · rintro h rfl
    obtain ⟨ring, hcreate, hfifo⟩ := not_fifo_of_no_slots
    exact hfifo (h ring _ hcreate .start)
  · intro hc ring s hcreate hrun
    have hc' : capacity.toNat ≠ 2 ^ 64 - 1 := fun h => hc (UInt64.toNat_inj.mp h)
    exact (hrun.invariant (start_inv hcreate hc') fun _ _ _ hinv hs => hinv.step hs).fifo

theorem fifo_fails_at_max :
    ¬ ∀ capacity ring s, RingBuffer.create capacity = some ring →
      Runs.Reaches step (start ring) s → s.Fifo capacity := by
  intro h
  obtain ⟨ring, hcreate, hfifo⟩ := not_fifo_of_no_slots
  exact hfifo (h _ ring _ hcreate .start)

end System

end OakBarrels.Bulk
