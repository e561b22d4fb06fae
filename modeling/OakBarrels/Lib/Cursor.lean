import OakBarrels.Lib.Octets
import Mathlib.Data.List.TakeWhile

/-!
# Reading a text by position

A program that walks over a text with an index into it. An index outside the text and a loop that
does not end are outcomes of their own, apart from a text that is refused. `Ensures` says what
holds whenever a program succeeds, `Takes` that it succeeds; both speak about what is left of the
text and not about positions.
-/

open Octets

namespace Cursor

inductive Outcome (α : Type)
  | done (value : α) (pos : Nat)
  | refused
  | outOfRange
  | outOfFuel

/-- A program: from the text and the position in it to a result and the new position. -/
def Program (α : Type) := Bytes → Nat → Outcome α

variable {α β : Type}

def pure (a : α) : Program α := fun _ pos => .done a pos

def bind (x : Program α) (f : α → Program β) : Program β := fun text pos =>
  match x text pos with
  | .done a pos' => f a text pos'
  | .refused => .refused
  | .outOfRange => .outOfRange
  | .outOfFuel => .outOfFuel

instance : Monad Program where
  pure := pure
  bind := bind

def refuse : Program α := fun _ _ => .refused

def outOfFuel : Program α := fun _ _ => .outOfFuel

def atEnd : Program Bool := fun text pos => .done (text.length ≤ pos) pos

def byteAt (offset : Nat) : Program Byte := fun text pos =>
  match text[pos + offset]? with
  | some b => .done b pos
  | none => .outOfRange

/-- How much is left; behind the end an unsigned difference would wrap around. -/
def remaining : Program Nat := fun text pos =>
  if pos ≤ text.length then .done (text.length - pos) pos else .outOfRange

def advance (n : Nat) : Program Unit := fun _ pos => .done () (pos + n)

def nextIs (p : Byte → Bool) : Program Bool := do
  if ← atEnd then return false
  return p (← byteAt 0)

def skipIf (p : Byte → Bool) : Program Unit := do
  if ← nextIs p then advance 1

def skipWhile (p : Byte → Bool) : Program Unit := fun text pos =>
  .done () (pos + ((text.drop pos).takeWhile p).length)

def substr (n : Nat) : Program Bytes := fun text pos =>
  if pos ≤ text.length then .done ((text.drop pos).take n) pos else .outOfRange

/-- Runs `x` and returns the text between the positions before and after it. -/
def tokenOf (x : Program Unit) : Program Bytes := fun text pos =>
  match x text pos with
  | .done _ pos' => .done ((text.drop pos).take (pos' - pos)) pos'
  | .refused => .refused
  | .outOfRange => .outOfRange
  | .outOfFuel => .outOfFuel

/-! ## What is left of the text -/

/-- At `pos` the text goes on with `s`. -/
def At (text : Bytes) (pos : Nat) (s : Bytes) : Prop := pos ≤ text.length ∧ text.drop pos = s

theorem at_zero (text : Bytes) : At text 0 text := ⟨Nat.zero_le _, rfl⟩

theorem At.length {text s : Bytes} {pos : Nat} (h : At text pos s) :
    text.length = pos + s.length := by
  obtain ⟨hle, rfl⟩ := h
  rw [List.length_drop]
  omega

theorem At.advance {text s t : Bytes} {pos : Nat} (h : At text pos (s ++ t)) :
    At text (pos + s.length) t := by
  have hlen := h.length
  rw [List.length_append] at hlen
  refine ⟨by omega, ?_⟩
  rw [← List.drop_drop, h.2, List.drop_left]

theorem At.tail {text t : Bytes} {b : Byte} {pos : Nat} (h : At text pos (b :: t)) :
    At text (pos + 1) t := At.advance (s := [b]) h

theorem At.get {text s : Bytes} {pos : Nat} (h : At text pos s) (i : Nat) :
    text[pos + i]? = s[i]? := by
  rw [← h.2, List.getElem?_drop]

theorem atEnd_at {text s : Bytes} {pos : Nat} (h : At text pos s) :
    atEnd text pos = .done (s.isEmpty) pos := by
  have := h.length
  cases s <;> simp [atEnd] at * <;> omega

theorem remaining_at {text s : Bytes} {pos : Nat} (h : At text pos s) :
    remaining text pos = .done s.length pos := by
  have := h.length
  rw [remaining, if_pos h.1, this]
  simp

theorem byteAt_at {text s : Bytes} {pos i : Nat} {b : Byte} (h : At text pos s)
    (hb : s[i]? = some b) : byteAt i text pos = .done b pos := by
  rw [byteAt, h.get, hb]

theorem nextIs_at (p : Byte → Bool) {text s : Bytes} {pos : Nat} (h : At text pos s) :
    nextIs p text pos = .done (s.head?.any p) pos := by
  cases s with
  | nil => simp [nextIs, Bind.bind, bind, atEnd_at h, Pure.pure, pure]
  | cons b t =>
    have := byteAt_at (i := 0) h rfl
    simp [nextIs, Bind.bind, bind, atEnd_at h, Pure.pure, pure, this]

/-! ## What a successful run ensures -/

/-- Whenever `x` succeeds before `s`, its result and what is left then satisfy `Q`. -/
def Ensures (x : Program α) (s : Bytes) (Q : α → Bytes → Prop) : Prop :=
  ∀ text pos, At text pos s → ∀ a pos', x text pos = .done a pos' →
    ∃ s', At text pos' s' ∧ Q a s'

theorem Ensures.mono {x : Program α} {s : Bytes} {Q R : α → Bytes → Prop} (h : Ensures x s Q)
    (hQR : ∀ a s', Q a s' → R a s') : Ensures x s R := by
  intro text pos hat a pos' hrun
  obtain ⟨s', hat', hq⟩ := h text pos hat a pos' hrun
  exact ⟨s', hat', hQR a s' hq⟩

theorem ensures_pure {a : α} {s : Bytes} {Q : α → Bytes → Prop} (h : Q a s) :
    Ensures (Pure.pure a) s Q := by
  intro text pos hat a' pos' hrun
  simp only [Pure.pure, pure, Outcome.done.injEq] at hrun
  obtain ⟨rfl, rfl⟩ := hrun
  exact ⟨s, hat, h⟩

theorem ensures_bind {x : Program α} {f : α → Program β} {s : Bytes} {Q : β → Bytes → Prop}
    (h : Ensures x s fun a s' => Ensures (f a) s' Q) : Ensures (x >>= f) s Q := by
  intro text pos hat b pos' hrun
  simp only [Bind.bind, bind] at hrun
  split at hrun
  · rename_i a p hx
    obtain ⟨s', hat', hf⟩ := h text pos hat a p hx
    exact hf text p hat' b pos' hrun
  all_goals simp at hrun

theorem ensures_refuse {s : Bytes} {Q : α → Bytes → Prop} : Ensures refuse s Q := by
  intro text pos hat a pos' hrun
  simp [refuse] at hrun

theorem ensures_outOfFuel {s : Bytes} {Q : α → Bytes → Prop} : Ensures outOfFuel s Q := by
  intro text pos hat a pos' hrun
  simp [outOfFuel] at hrun

theorem ensures_atEnd {s : Bytes} {Q : Bool → Bytes → Prop} (h : Q s.isEmpty s) :
    Ensures atEnd s Q := by
  intro text pos hat a pos' hrun
  rw [atEnd_at hat] at hrun
  simp only [Outcome.done.injEq] at hrun
  obtain ⟨rfl, rfl⟩ := hrun
  exact ⟨s, hat, h⟩

theorem ensures_remaining {s : Bytes} {Q : Nat → Bytes → Prop} (h : Q s.length s) :
    Ensures remaining s Q := by
  intro text pos hat a pos' hrun
  rw [remaining_at hat] at hrun
  simp only [Outcome.done.injEq] at hrun
  obtain ⟨rfl, rfl⟩ := hrun
  exact ⟨s, hat, h⟩

theorem ensures_byteAt {s : Bytes} {i : Nat} {Q : Byte → Bytes → Prop}
    (h : ∀ b, s[i]? = some b → Q b s) : Ensures (byteAt i) s Q := by
  intro text pos hat a pos' hrun
  rw [byteAt, hat.get] at hrun
  split at hrun
  · rename_i b hb
    simp only [Outcome.done.injEq] at hrun
    obtain ⟨rfl, rfl⟩ := hrun
    exact ⟨s, hat, h _ hb⟩
  · simp at hrun

theorem ensures_nextIs {p : Byte → Bool} {s : Bytes} {Q : Bool → Bytes → Prop}
    (h : Q (s.head?.any p) s) : Ensures (nextIs p) s Q := by
  intro text pos hat a pos' hrun
  rw [nextIs_at p hat] at hrun
  simp only [Outcome.done.injEq] at hrun
  obtain ⟨rfl, rfl⟩ := hrun
  exact ⟨s, hat, h⟩

theorem ensures_advance {s t : Bytes} {Q : Unit → Bytes → Prop} (h : Q () t) :
    Ensures (advance s.length) (s ++ t) Q := by
  intro text pos hat a pos' hrun
  simp only [advance, Outcome.done.injEq] at hrun
  obtain ⟨-, rfl⟩ := hrun
  exact ⟨t, hat.advance, h⟩

theorem ensures_advance_one {b : Byte} {t : Bytes} {Q : Unit → Bytes → Prop} (h : Q () t) :
    Ensures (advance 1) (b :: t) Q := ensures_advance (s := [b]) h

/-- A branch on whether one byte comes next; the branch itself passes over it. -/
theorem ensures_ifNext {b : Byte} {x y : Program α} {s : Bytes} {Q : α → Bytes → Prop}
    (hnext : ∀ t, s = b :: t → Ensures x s Q) (hother : s.head? ≠ some b → Ensures y s Q) :
    Ensures (nextIs (fun c => decide (c = b)) >>= fun found => if found = true then x else y) s Q := by
  apply ensures_bind
  apply ensures_nextIs
  cases s with
  | nil => exact hother (by simp)
  | cons c t =>
    split <;> rename_i h
    · exact hnext t (by simpa using h)
    · exact hother (by simpa using h)

theorem ensures_skipIf (p : Byte → Bool) (s : Bytes) :
    Ensures (skipIf p) s fun _ s' => ∃ l, s = l ++ s' ∧ (l = [] ∨ ∃ b, p b = true ∧ l = [b]) := by
  apply ensures_bind
  apply ensures_nextIs
  cases s with
  | nil => exact ensures_pure ⟨[], rfl, Or.inl rfl⟩
  | cons b t =>
    split <;> rename_i h
    · exact ensures_advance_one ⟨[b], rfl, Or.inr ⟨b, by simpa using h, rfl⟩⟩
    · exact ensures_pure ⟨[], rfl, Or.inl rfl⟩

theorem skipWhile_at (p : Byte → Bool) {text s : Bytes} {pos : Nat} (h : At text pos s) :
    ∃ pos', skipWhile p text pos = .done () pos' ∧ At text pos' (s.dropWhile p) := by
  refine ⟨pos + (s.takeWhile p).length, by rw [skipWhile, h.2], ?_⟩
  apply At.advance
  rwa [List.takeWhile_append_dropWhile]

theorem ensures_skipWhile {p : Byte → Bool} {s : Bytes} {Q : Unit → Bytes → Prop}
    (h : Q () (s.dropWhile p)) : Ensures (skipWhile p) s Q := by
  intro text pos hat a pos' hrun
  obtain ⟨pos'', hskip, hat'⟩ := skipWhile_at p hat
  rw [hskip] at hrun
  simp only [Outcome.done.injEq] at hrun
  obtain ⟨-, rfl⟩ := hrun
  exact ⟨_, hat', h⟩

def Stops (p : Byte → Bool) (s : Bytes) : Prop := ∀ b t, s = b :: t → p b = false

theorem stops_nil (p : Byte → Bool) : Stops p [] := by
  intro b t h
  simp at h

theorem stops_cons {p : Byte → Bool} {b : Byte} (t : Bytes) (h : p b = false) :
    Stops p (b :: t) := by
  intro b' t' heq
  obtain ⟨rfl, -⟩ := List.cons.inj heq
  exact h

theorem ensures_skipWhile_run (p : Byte → Bool) (s : Bytes) :
    Ensures (skipWhile p) s fun _ s' =>
      ∃ l, s = l ++ s' ∧ (∀ b ∈ l, p b = true) ∧ Stops p s' := by
  apply ensures_skipWhile
  refine ⟨s.takeWhile p, List.takeWhile_append_dropWhile.symm, ?_, ?_⟩
  · intro b hb
    exact List.mem_takeWhile_imp hb
  · intro b t hbt
    have := List.head?_dropWhile_not p s
    rw [hbt] at this
    simpa using this

theorem ensures_substr {n : Nat} {s : Bytes} {Q : Bytes → Bytes → Prop} (h : Q (s.take n) s) :
    Ensures (substr n) s Q := by
  intro text pos hat a pos' hrun
  rw [substr, if_pos hat.1, hat.2] at hrun
  simp only [Outcome.done.injEq] at hrun
  obtain ⟨rfl, rfl⟩ := hrun
  exact ⟨s, hat, h⟩

/-- The token is what was read: `s` without what is left. -/
theorem ensures_tokenOf {x : Program Unit} {s : Bytes} {Q : Bytes → Bytes → Prop}
    (h : Ensures x s fun _ s' => ∃ token, s = token ++ s' ∧ Q token s') :
    Ensures (tokenOf x) s Q := by
  intro text pos hat a pos' hrun
  simp only [tokenOf] at hrun
  split at hrun
  · rename_i u p hx
    simp only [Outcome.done.injEq] at hrun
    obtain ⟨rfl, rfl⟩ := hrun
    obtain ⟨s', hat', token, hs, hq⟩ := h text pos hat _ _ hx
    have h1 := hat.length
    have h2 := hat'.length
    rw [hs, List.length_append] at h1
    refine ⟨s', hat', ?_⟩
    rwa [hat.2, hs, show p - pos = token.length by omega, List.take_left]
  all_goals simp at hrun

/-! ## Success -/

/-- Before `s`, the program succeeds with `a` and leaves `s'`. -/
def Takes (x : Program α) (s : Bytes) (a : α) (s' : Bytes) : Prop :=
  ∀ text pos, At text pos s → ∃ pos', x text pos = .done a pos' ∧ At text pos' s'

/-- A program takes one thing, and leaves one rest. -/
theorem Takes.unique {x : Program α} {s t t' : Bytes} {a a' : α} (h : Takes x s a t)
    (h' : Takes x s a' t') : a = a' ∧ t = t' := by
  obtain ⟨pos, hrun, hat⟩ := h s 0 (at_zero s)
  obtain ⟨pos', hrun', hat'⟩ := h' s 0 (at_zero s)
  rw [hrun] at hrun'
  cases hrun'
  exact ⟨rfl, hat.2.symm.trans hat'.2⟩

theorem takes_pure (a : α) (s : Bytes) : Takes (Pure.pure a) s a s :=
  fun _ pos hat => ⟨pos, rfl, hat⟩

theorem takes_bind {x : Program α} {f : α → Program β} {s s' s'' : Bytes} {a : α} {b : β}
    (hx : Takes x s a s') (hf : Takes (f a) s' b s'') : Takes (x >>= f) s b s'' := by
  intro text pos hat
  obtain ⟨p, hrun, hat'⟩ := hx text pos hat
  obtain ⟨q, hrun', hat''⟩ := hf text p hat'
  exact ⟨q, by simp only [Bind.bind, bind, hrun, hrun'], hat''⟩

theorem takes_atEnd (s : Bytes) : Takes atEnd s s.isEmpty s :=
  fun _ pos hat => ⟨pos, atEnd_at hat, hat⟩

theorem takes_remaining (s : Bytes) : Takes remaining s s.length s :=
  fun _ pos hat => ⟨pos, remaining_at hat, hat⟩

theorem takes_byteAt {s : Bytes} {i : Nat} {b : Byte} (h : s[i]? = some b) :
    Takes (byteAt i) s b s := fun _ pos hat => ⟨pos, byteAt_at hat h, hat⟩

theorem takes_nextIs (p : Byte → Bool) (s : Bytes) : Takes (nextIs p) s (s.head?.any p) s :=
  fun _ pos hat => ⟨pos, nextIs_at p hat, hat⟩

theorem takes_advance (s t : Bytes) : Takes (advance s.length) (s ++ t) () t :=
  fun _ pos hat => ⟨pos + s.length, rfl, hat.advance⟩

theorem takes_advance_one (b : Byte) (t : Bytes) : Takes (advance 1) (b :: t) () t :=
  takes_advance [b] t

theorem takes_skipWhile (p : Byte → Bool) (s : Bytes) :
    Takes (skipWhile p) s () (s.dropWhile p) := fun _ _ hat => skipWhile_at p hat

theorem takes_skipWhile_run {p : Byte → Bool} {l s : Bytes} (hl : ∀ b ∈ l, p b = true)
    (hs : Stops p s) : Takes (skipWhile p) (l ++ s) () s := by
  have h := takes_skipWhile p (l ++ s)
  rw [List.dropWhile_append_of_pos hl] at h
  cases s with
  | nil => simpa using h
  | cons b t => simpa [hs b t rfl] using h

theorem takes_skipIf {p : Byte → Bool} {b : Byte} {t : Bytes} (h : p b = true) :
    Takes (skipIf p) (b :: t) () t := by
  apply takes_bind (takes_nextIs p _)
  rw [if_pos (by simpa using h)]
  exact takes_advance_one b t

theorem takes_skipIf_not {p : Byte → Bool} {s : Bytes} (h : Stops p s) :
    Takes (skipIf p) s () s := by
  apply takes_bind (takes_nextIs p s)
  rw [if_neg]
  · exact takes_pure () s
  · cases s with
    | nil => simp
    | cons b t => simp [h b t rfl]

theorem takes_substr (n : Nat) (s : Bytes) : Takes (substr n) s (s.take n) s := by
  intro text pos hat
  exact ⟨pos, by rw [substr, if_pos hat.1, hat.2], hat⟩

theorem takes_tokenOf {x : Program Unit} {token s : Bytes} (h : Takes x (token ++ s) () s) :
    Takes (tokenOf x) (token ++ s) token s := by
  intro text pos hat
  obtain ⟨p, hrun, hat'⟩ := h text pos hat
  have h1 := hat.length
  have h2 := hat'.length
  rw [List.length_append] at h1
  refine ⟨p, ?_, hat'⟩
  simp only [tokenOf, hrun]
  rw [hat.2, show p - pos = token.length by omega, List.take_left]

end Cursor
