import Mathlib.Tactic
import Mathlib.Data.List.Rotate

/-!
# Circular storage

A list of cells read from one position round the end to another, and runs of bytes put into it and
taken from it across the end in at most two pieces. Read from its tail, a storage is a plain list,
so that what the operations do to a queue is a fact about `take` and `drop`.
-/

namespace Circular

variable {α : Type}

/-! ## Positions -/

/-- How many cells there are from one position up to another, of `n`. -/
def count (n start stop : Nat) : Nat := (stop + n - start) % n

theorem count_of_le {n start stop : Nat} (hstop : stop < n) (h : start ≤ stop) :
    count n start stop = stop - start := by
  unfold count
  have hsum : stop + n - start = stop - start + n := by omega
  rw [hsum, Nat.add_mod_right, Nat.mod_eq_of_lt (by omega)]

theorem count_of_lt {n start stop : Nat} (hstart : start < n) (h : stop < start) :
    count n start stop = stop + n - start := by
  unfold count
  rw [Nat.mod_eq_of_lt (by omega)]

theorem count_lt {n stop : Nat} (start : Nat) (hstop : stop < n) : count n start stop < n :=
  Nat.mod_lt _ (by omega)

theorem advance_of_lt {n i k : Nat} (h : i + k < n) : (i + k) % n = i + k := Nat.mod_eq_of_lt h

theorem advance_of_ge {n i k : Nat} (hi : i < n) (hk : k < n) (h : n ≤ i + k) :
    (i + k) % n = i + k - n := by
  rw [Nat.mod_eq_sub_mod h, Nat.mod_eq_of_lt (by omega)]

theorem count_advance_stop {n start stop k : Nat} (hstart : start < n) (hstop : stop < n)
    (hk : count n start stop + k < n) :
    count n start ((stop + k) % n) = count n start stop + k := by
  rcases Nat.lt_or_ge stop start with h | h
  · rw [count_of_lt hstart h] at hk ⊢
    rw [advance_of_lt (by omega), count_of_lt hstart (by omega)]
    omega
  · rw [count_of_le hstop h] at hk ⊢
    rcases Nat.lt_or_ge (stop + k) n with hlt | hge
    · rw [advance_of_lt hlt, count_of_le hlt (by omega)]
      omega
    · rw [advance_of_ge hstop (by omega) hge, count_of_lt hstart (by omega)]
      omega

theorem count_advance_start {n start stop k : Nat} (hstart : start < n) (hstop : stop < n)
    (hk : k ≤ count n start stop) :
    count n ((start + k) % n) stop = count n start stop - k := by
  have hlt := count_lt start hstop
  rcases Nat.lt_or_ge stop start with h | h
  · rw [count_of_lt hstart h] at hk hlt ⊢
    rcases Nat.lt_or_ge (start + k) n with hin | hout
    · rw [advance_of_lt hin, count_of_lt hin (by omega)]
      omega
    · rw [advance_of_ge hstart (by omega) hout, count_of_le hstop (by omega)]
      omega
  · rw [count_of_le hstop h] at hk ⊢
    rw [advance_of_lt (by omega), count_of_le hstop (by omega)]
    omega

/-! ## Reading -/

/-- The cells from one position up to another, past the end where the second comes first. -/
def between (cells : List α) (start stop : Nat) : List α :=
  if start ≤ stop then (cells.take stop).drop start else cells.drop start ++ cells.take stop

/-- The same read from the start: what lies in between is the beginning of the storage. -/
theorem between_eq_take {cells : List α} {start stop : Nat} (hstart : start < cells.length)
    (hstop : stop < cells.length) :
    between cells start stop = (cells.rotate start).take (count cells.length start stop) := by
  rw [List.rotate_eq_drop_append_take hstart.le]
  unfold between
  split
  · rename_i h
    rw [count_of_le hstop h, List.take_append_of_le_length (by simp; omega), List.drop_take]
  · rename_i h
    have hrest : stop + cells.length - start - (cells.length - start) = stop := by omega
    rw [count_of_lt hstart (by omega), List.take_append, List.length_drop, hrest, List.take_take,
      Nat.min_eq_left (by omega), List.take_of_length_le (l := cells.drop start) (by simp; omega)]

def get (cells : List α) (start k : Nat) : List α :=
  let firstRun := min k (cells.length - start)
  (cells.drop start).take firstRun ++ cells.take (k - firstRun)

theorem get_eq_take {cells : List α} {start k : Nat} (hstart : start < cells.length)
    (hk : k ≤ cells.length) : get cells start k = (cells.rotate start).take k := by
  rw [List.rotate_eq_drop_append_take hstart.le, List.take_append, List.take_take]
  unfold get
  simp only [List.length_drop]
  rcases Nat.le_total k (cells.length - start) with h | h
  · simp [h]
  · rw [Nat.min_eq_right h, Nat.min_eq_left (by omega)]
    congr 1
    rw [List.take_of_length_le (by simp), List.take_of_length_le (by simp; omega)]

theorem take_rotate_advance {cells : List α} (start : Nat) {m k : Nat} (hm : m ≤ cells.length)
    (hk : k ≤ m) :
    (cells.rotate ((start + k) % cells.length)).take (m - k)
      = ((cells.rotate start).take m).drop k := by
  rw [List.rotate_mod, ← List.rotate_rotate,
    List.rotate_eq_drop_append_take (by simp; omega), List.take_append_of_le_length
    (by simp; omega), List.drop_take]

/-! ## Writing -/

def overwrite (cells : List α) (at' : Nat) (data : List α) : List α :=
  cells.take at' ++ data ++ cells.drop (at' + data.length)

@[simp] theorem overwrite_nil (cells : List α) (at' : Nat) : overwrite cells at' [] = cells := by
  simp [overwrite]

theorem overwrite_length {cells : List α} {at' : Nat} {data : List α}
    (h : at' + data.length ≤ cells.length) : (overwrite cells at' data).length = cells.length := by
  simp [overwrite]
  omega

def put (cells : List α) (start : Nat) (data : List α) : List α :=
  let firstRun := min data.length (cells.length - start)
  overwrite (overwrite cells start (data.take firstRun)) 0 (data.drop firstRun)

theorem put_length {cells : List α} {start : Nat} {data : List α} (hstart : start < cells.length)
    (hdata : data.length ≤ cells.length) : (put cells start data).length = cells.length := by
  unfold put
  rw [overwrite_length, overwrite_length]
  · simp
    omega
  · rw [overwrite_length (by simp; omega)]
    simp
    omega

theorem put_of_fits {cells : List α} {start : Nat} {data : List α}
    (h : data.length ≤ cells.length - start) :
    put cells start data = cells.take start ++ (data ++ cells.drop (start + data.length)) := by
  unfold put overwrite
  rw [Nat.min_eq_left h]
  simp

theorem put_of_wraps {cells : List α} {start : Nat} {data : List α} (hstart : start < cells.length)
    (hdata : data.length ≤ cells.length) (h : cells.length - start ≤ data.length) :
    put cells start data = data.drop (cells.length - start) ++
      (cells.take start).drop (data.length - (cells.length - start)) ++
        data.take (cells.length - start) := by
  have hlast : start + (cells.length - start) = cells.length := by omega
  simp only [put, overwrite]
  rw [Nat.min_eq_right h, List.length_take, Nat.min_eq_left h, hlast, List.drop_length,
    List.append_nil, List.take_zero, List.nil_append, Nat.zero_add, List.length_drop,
    List.drop_append_of_le_length (by simp; omega), List.append_assoc]

/-- Read from where it was written, a storage begins with what was written. -/
theorem put_rotate {cells : List α} {start : Nat} (data : List α) (hstart : start < cells.length)
    (hdata : data.length ≤ cells.length) :
    (put cells start data).rotate start = data ++ (cells.rotate start).drop data.length := by
  rw [List.rotate_eq_drop_append_take (by rw [put_length hstart hdata]; exact hstart.le),
    List.rotate_eq_drop_append_take hstart.le]
  rcases Nat.le_total data.length (cells.length - start) with h | h
  · have hstart' : (cells.take start).length = start := by simp; omega
    rw [put_of_fits h, List.drop_left' hstart', List.take_left' hstart', List.append_assoc,
      List.drop_append_of_le_length (by simp; omega), List.drop_drop]
  · have hsplit : (data.drop (cells.length - start) ++
        (cells.take start).drop (data.length - (cells.length - start))).length = start := by
      simp
      omega
    rw [put_of_wraps hstart hdata h, List.drop_left' hsplit, List.take_left' hsplit,
      ← List.append_assoc, List.take_append_drop, List.drop_append, List.length_drop,
      List.drop_of_length_le (l := cells.drop start) (by simpa using h), List.nil_append]

/-- Writing behind what a stretch holds leaves it as it is and is what follows it. -/
theorem take_rotate_put {cells : List α} {start stop : Nat} (data : List α)
    (hstart : start < cells.length) (hstop : stop < cells.length)
    (hroom : count cells.length start stop + data.length ≤ cells.length) :
    ((put cells stop data).rotate start).take (count cells.length start stop + data.length)
      = (cells.rotate start).take (count cells.length start stop) ++ data := by
  set n := count cells.length start stop with hn
  have hlen : (put cells stop data).length = cells.length := put_length hstop (by omega)
  -- Both are read from `stop`, which is `n` cells after `start`.
  have hstop_eq : stop = (start + n) % cells.length := by
    have h := count_advance_stop (k := 0) hstart hstop (by simpa using count_lt start hstop)
    rw [hn]
    rcases Nat.lt_or_ge stop start with hlt | hge
    · rw [count_of_lt hstart hlt, advance_of_ge hstart (by omega) (by omega)]
      omega
    · rw [count_of_le hstop hge, advance_of_lt (by omega)]
      omega
  have hput := put_rotate data hstop (by omega)
  have hsides : ∀ l : List α, l.length = cells.length →
      l.rotate stop = (l.rotate start).drop n ++ (l.rotate start).take n := by
    intro l hl
    rw [hstop_eq, ← hl, List.rotate_mod, ← List.rotate_rotate,
      List.rotate_eq_drop_append_take (by simp; omega)]
  rw [hsides _ hlen, hsides _ rfl, List.drop_append_of_le_length (by simp; omega),
    ← List.append_assoc] at hput
  obtain ⟨hafter, hbefore⟩ := List.append_inj' hput (by simp [hlen])
  rw [List.take_add, hbefore, hafter, List.take_left' rfl]

end Circular
