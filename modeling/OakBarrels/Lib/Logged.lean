import OakBarrels.Lib.Cursor

/-!
# Reading with a log

Programs over a text and a position again, with a log of the indices that they look at, of the
positions that they take and of how deep they recurse, whether they succeed or not. `Follows` says
that such a program does what one without a log does, `Safe` what its log satisfies.
-/

open Octets

namespace Logged

inductive Result (α : Type)
  | done (value : α)
  | refused
  | outOfRange
  | outOfFuel

/-- The position, with all before it and the indices so far; how many calls are active, and how many
were when each of them began. -/
structure Log where
  pos : Nat
  positions : List Nat
  accesses : List Nat
  active : Nat
  levels : List Nat

def Log.start : Log := ⟨0, [0], [], 0, []⟩

def Program (α : Type) := Bytes → Log → Result α × Log

variable {α β : Type}

def pure (a : α) : Program α := fun _ log => (.done a, log)

def bind (x : Program α) (f : α → Program β) : Program β := fun text log =>
  match x text log with
  | (.done a, log) => f a text log
  | (.refused, log) => (.refused, log)
  | (.outOfRange, log) => (.outOfRange, log)
  | (.outOfFuel, log) => (.outOfFuel, log)

instance : Monad Program where
  pure := pure
  bind := bind

def refuse : Program α := fun _ log => (.refused, log)

def outOfFuel : Program α := fun _ log => (.outOfFuel, log)

def atEnd : Program Bool := fun text log => (.done (text.length ≤ log.pos), log)

def byteAt (offset : Nat) : Program Byte := fun text log =>
  let log' := { log with accesses := log.accesses ++ [log.pos + offset] }
  match text[log.pos + offset]? with
  | some b => (.done b, log')
  | none => (.outOfRange, log')

/-- How much is left; behind the end an unsigned difference would wrap around. -/
def remaining : Program Nat := fun text log =>
  (if log.pos ≤ text.length then .done (text.length - log.pos) else .outOfRange, log)

def advance (n : Nat) : Program Unit := fun _ log =>
  (.done (), { log with pos := log.pos + n, positions := log.positions ++ [log.pos + n] })

def nextIs (p : Byte → Bool) : Program Bool := do
  if ← atEnd then return false
  return p (← byteAt 0)

def skipIf (p : Byte → Bool) : Program Unit := do
  if ← nextIs p then advance 1

/-- Looks twice at the byte that comes next. -/
def branch (p : Byte → Bool) (x : Program α) (q : Byte → Bool) (y : Program α) : Program α := do
  if ← atEnd then refuse
  else if p (← byteAt 0) then x
  else if q (← byteAt 0) then y
  else refuse

def skipLoop (p : Byte → Bool) : Nat → Program Unit
  | 0 => outOfFuel
  | fuel + 1 => do
    if ← nextIs p then
      advance 1
      skipLoop p fuel

/-- The loop can end only where the text ends, so the text is long enough to count it. -/
def skipWhile (p : Byte → Bool) : Program Unit := fun text log =>
  skipLoop p (text.length - log.pos + 1) text log

def substr (n : Nat) : Program Bytes := fun text log =>
  (if log.pos ≤ text.length then .done ((text.drop log.pos).take n) else .outOfRange, log)

/-- Runs `x` and returns the text between the positions before and after it. -/
def tokenOf (x : Program Unit) : Program Bytes := fun text log =>
  match x text log with
  | (.done _, log') => (.done ((text.drop log.pos).take (log'.pos - log.pos)), log')
  | (.refused, log') => (.refused, log')
  | (.outOfRange, log') => (.outOfRange, log')
  | (.outOfFuel, log') => (.outOfFuel, log')

/-- A call of the recursive function, which ends however `x` ends. -/
def call (x : Program α) : Program α := fun text log =>
  let (result, log) := x text { log with
    active := log.active + 1
    levels := log.levels ++ [log.active + 1] }
  (result, { log with active := log.active - 1 })

/-! ## Without the log -/

def Result.outcome : Result α → Nat → Cursor.Outcome α
  | .done a, pos => .done a pos
  | .refused, _ => .refused
  | .outOfRange, _ => .outOfRange
  | .outOfFuel, _ => .outOfFuel

/-- Where `x` does with its log what `y` does. -/
def Follows (x : Program α) (y : Cursor.Program α) : Prop :=
  ∀ text log, (x text log).1.outcome (x text log).2.pos = y text log.pos

theorem follows_pure (a : α) : Follows (Pure.pure a) (Pure.pure a) := fun _ _ => rfl

theorem follows_refuse : Follows (refuse : Program α) Cursor.refuse := fun _ _ => rfl

theorem follows_outOfFuel : Follows (outOfFuel : Program α) Cursor.outOfFuel := fun _ _ => rfl

theorem follows_bind {x : Program α} {y : Cursor.Program α} {f : α → Program β}
    {g : α → Cursor.Program β} (hx : Follows x y) (hf : ∀ a, Follows (f a) (g a)) :
    Follows (x >>= f) (y >>= g) := by
  intro text log
  have h := hx text log
  change (bind x f text log).1.outcome (bind x f text log).2.pos = Cursor.bind y g text log.pos
  unfold bind Cursor.bind
  rw [← h]
  rcases x text log with ⟨result, log'⟩
  cases result with
  | done a => exact hf a text log'
  | _ => rfl

theorem follows_ite {c : Prop} [Decidable c] {x x' : Program α} {y y' : Cursor.Program α}
    (hx : Follows x y) (hx' : Follows x' y') :
    Follows (if c then x else x') (if c then y else y') := by
  split
  · exact hx
  · exact hx'

theorem follows_atEnd : Follows atEnd Cursor.atEnd := fun _ _ => rfl

theorem follows_byteAt (i : Nat) : Follows (byteAt i) (Cursor.byteAt i) := by
  intro text log
  unfold byteAt Cursor.byteAt
  generalize text[log.pos + i]? = found
  cases found <;> rfl

theorem follows_remaining : Follows remaining Cursor.remaining := by
  intro text log
  unfold remaining Cursor.remaining
  split <;> rfl

theorem follows_advance (n : Nat) : Follows (advance n) (Cursor.advance n) := fun _ _ => rfl

theorem follows_substr (n : Nat) : Follows (substr n) (Cursor.substr n) := by
  intro text log
  unfold substr Cursor.substr
  split <;> rfl

theorem follows_nextIs (p : Byte → Bool) : Follows (nextIs p) (Cursor.nextIs p) := by
  unfold nextIs Cursor.nextIs
  apply follows_bind follows_atEnd
  intro ended
  apply follows_ite (follows_pure false)
  exact follows_bind (follows_byteAt 0) fun b => follows_pure (p b)

theorem follows_skipIf (p : Byte → Bool) : Follows (skipIf p) (Cursor.skipIf p) := by
  unfold skipIf Cursor.skipIf
  apply follows_bind (follows_nextIs p)
  exact fun _ => follows_ite (follows_advance 1) (follows_pure ())

theorem ended_or_byte (text : Bytes) (pos : Nat) :
    text.length ≤ pos ∨ ∃ b, pos < text.length ∧ text[pos]? = some b := by
  rcases Nat.lt_or_ge pos text.length with h | h
  · exact .inr ⟨text[pos], h, List.getElem?_eq_getElem h⟩
  · exact .inl h

section

variable {text : Bytes} {log : Log} {b : Byte}

theorem nextIs_ended (p : Byte → Bool) (h : text.length ≤ log.pos) :
    nextIs p text log = (.done false, log) := by
  simp [nextIs, Bind.bind, bind, atEnd, Pure.pure, pure, h]

theorem nextIs_byte (p : Byte → Bool) (hpos : log.pos < text.length)
    (h : text[log.pos]? = some b) :
    nextIs p text log = (.done (p b), { log with accesses := log.accesses ++ [log.pos] }) := by
  simp [nextIs, Bind.bind, bind, atEnd, byteAt, Pure.pure, pure, h, Nat.not_le.mpr hpos]

theorem branch_ended {p q : Byte → Bool} {x y : Program α} (h : text.length ≤ log.pos) :
    branch p x q y text log = (.refused, log) := by
  simp [branch, Bind.bind, bind, atEnd, refuse, h]

theorem branch_byte {p q : Byte → Bool} {x y : Program α} (hpos : log.pos < text.length)
    (h : text[log.pos]? = some b) :
    branch p x q y text log =
      if p b then x text { log with accesses := log.accesses ++ [log.pos] }
      else (if q b then y else refuse) text
        { log with accesses := log.accesses ++ [log.pos, log.pos] } := by
  simp [branch, Bind.bind, bind, atEnd, byteAt, h, Nat.not_le.mpr hpos]
  split <;> simp [bind, byteAt, h]

end

theorem cursor_ifNext {p : Byte → Bool} {x y : Cursor.Program α} {text : Bytes} {pos : Nat}
    {found : Bool} (h : Cursor.nextIs p text pos = .done found pos) :
    (Cursor.nextIs p >>= fun found => if found = true then x else y) text pos =
      (if found = true then x else y) text pos := by
  simp only [Bind.bind, Cursor.bind, h]

theorem follows_branch {p q : Byte → Bool} {x y : Program α} {x' y' : Cursor.Program α}
    (hx : Follows x x') (hy : Follows y y') : Follows (branch p x q y) (do
      if ← Cursor.nextIs p then x'
      else if ← Cursor.nextIs q then y'
      else Cursor.refuse) := by
  intro text log
  have hp := follows_nextIs p text log
  have hq := follows_nextIs q text log
  rcases ended_or_byte text log.pos with hend | ⟨b, hpos, hb⟩
  · rw [nextIs_ended _ hend] at hp hq
    rw [branch_ended hend, cursor_ifNext hp.symm, if_neg Bool.false_ne_true,
      cursor_ifNext hq.symm, if_neg Bool.false_ne_true]
    rfl
  · rw [nextIs_byte _ hpos hb] at hp hq
    rw [branch_byte hpos hb, cursor_ifNext hp.symm]
    by_cases hpb : p b = true
    · rw [if_pos hpb, if_pos hpb]
      exact hx text _
    · rw [if_neg hpb, if_neg hpb, cursor_ifNext hq.symm]
      exact follows_ite hy follows_refuse text
        { log with accesses := log.accesses ++ [log.pos, log.pos] }

theorem skipLoop_run (p : Byte → Bool) {text s : Bytes} {fuel : Nat} {log : Log}
    (hat : text.drop log.pos = s) (hfuel : s.length < fuel) :
    (skipLoop p fuel text log).1.outcome (skipLoop p fuel text log).2.pos =
      .done () (log.pos + (s.takeWhile p).length) := by
  induction fuel generalizing s log with
  | zero => omega
  | succ fuel ih =>
    simp only [skipLoop, Bind.bind, bind]
    rcases ended_or_byte text log.pos with hend | ⟨b, hpos, hb⟩
    · obtain rfl : [] = s := (List.drop_eq_nil_of_le hend).symm.trans hat
      rw [nextIs_ended _ hend]
      rfl
    · have hcons : s = b :: text.drop (log.pos + 1) := by
        rw [← hat, List.drop_eq_getElem_cons hpos]
        rw [List.getElem?_eq_getElem hpos] at hb
        rw [Option.some.inj hb]
      rw [nextIs_byte _ hpos hb, hcons]
      rw [hcons, List.length_cons] at hfuel
      dsimp only
      by_cases hp : p b = true
      · rw [if_pos hp, List.takeWhile_cons_of_pos hp, List.length_cons, Nat.add_comm _ 1,
          ← Nat.add_assoc]
        -- One position further, with one look fewer to go.
        exact @ih (text.drop (log.pos + 1)) { log with
          pos := log.pos + 1
          positions := log.positions ++ [log.pos + 1]
          accesses := log.accesses ++ [log.pos] } rfl (by omega)
      · rw [if_neg hp, List.takeWhile_cons_of_neg hp]
        rfl

theorem follows_skipWhile (p : Byte → Bool) : Follows (skipWhile p) (Cursor.skipWhile p) := by
  intro text log
  unfold skipWhile Cursor.skipWhile
  apply skipLoop_run p rfl
  rw [List.length_drop]
  omega

theorem follows_tokenOf {x : Program Unit} {y : Cursor.Program Unit} (h : Follows x y) :
    Follows (tokenOf x) (Cursor.tokenOf y) := by
  intro text log
  have hrun := h text log
  unfold tokenOf Cursor.tokenOf
  rw [← hrun]
  rcases x text log with ⟨result, log'⟩
  cases result <;> rfl

theorem follows_call {x : Program α} {y : Cursor.Program α} (h : Follows x y) :
    Follows (call x) y := by
  intro text log
  exact h text { log with active := log.active + 1, levels := log.levels ++ [log.active + 1] }

/-! ## What the log satisfies -/

/-- What has been looked at is inside the text, the positions never went back or past its end, and
there were at most `bound` calls at once. -/
structure Log.Inside (bound n : Nat) (log : Log) : Prop where
  accesses : ∀ i ∈ log.accesses, i < n
  ordered : log.positions.Pairwise (· ≤ ·)
  below : ∀ pos ∈ log.positions, pos ≤ log.pos
  inside : log.pos ≤ n
  levels : ∀ level ∈ log.levels, level ≤ bound

theorem Log.start_inside (bound n : Nat) : Log.start.Inside bound n := by
  refine ⟨nofun, List.pairwise_singleton _ _, ?_, Nat.zero_le n, nofun⟩
  intro pos hpos
  exact Nat.le_of_eq (List.mem_singleton.mp hpos)

theorem Log.Inside.access {bound n i : Nat} {log : Log} (h : log.Inside bound n) (hi : i < n) :
    Log.Inside bound n { log with accesses := log.accesses ++ [i] } := by
  refine ⟨?_, h.ordered, h.below, h.inside, h.levels⟩
  intro j hj
  rcases List.mem_append.mp hj with hj | hj
  · exact h.accesses j hj
  · rw [List.mem_singleton.mp hj]
    exact hi

theorem Log.Inside.advance {bound n m : Nat} {log : Log} (h : log.Inside bound n)
    (hm : log.pos + m ≤ n) : Log.Inside bound n
      { log with pos := log.pos + m, positions := log.positions ++ [log.pos + m] } := by
  refine ⟨h.accesses, ?_, ?_, hm, h.levels⟩
  · rw [List.pairwise_append]
    refine ⟨h.ordered, List.pairwise_singleton _ _, ?_⟩
    intro pos hpos next hnext
    have hle := h.below pos hpos
    rw [List.mem_singleton.mp hnext]
    omega
  · intro pos hpos
    rcases List.mem_append.mp hpos with hpos | hpos
    · have hle := h.below pos hpos
      change pos ≤ log.pos + m
      omega
    · exact Nat.le_of_eq (List.mem_singleton.mp hpos)

/-- From position `pos`, within `level` calls: `x` ends, succeeding with `Q` or refusing, and what
it logs on the way stays inside the text. -/
def Safe (text : Bytes) (bound level pos : Nat) (x : Program α) (Q : α → Nat → Prop) : Prop :=
  ∀ log : Log, log.Inside bound text.length → log.active = level → log.pos = pos →
    (x text log).2.Inside bound text.length ∧ (x text log).2.active = level ∧
      ((x text log).1 = .refused ∨ ∃ a, (x text log).1 = .done a ∧ Q a (x text log).2.pos)

section

variable {text : Bytes} {bound level pos : Nat} {x y : Program α} {Q : α → Nat → Prop}

theorem safe_pure {a : α} (h : Q a pos) : Safe text bound level pos (Pure.pure a) Q := by
  intro log hlog hactive hpos
  exact ⟨hlog, hactive, .inr ⟨a, rfl, hpos ▸ h⟩⟩

theorem safe_refuse : Safe text bound level pos (refuse : Program α) Q :=
  fun _ hlog hactive _ => ⟨hlog, hactive, .inl rfl⟩

theorem safe_bind {f : α → Program β} {P : β → Nat → Prop}
    (h : Safe text bound level pos x fun a pos' => Safe text bound level pos' (f a) P) :
    Safe text bound level pos (x >>= f) P := by
  intro log hlog hactive hpos
  obtain ⟨hinside, hsame, hresult⟩ := h log hlog hactive hpos
  change (bind x f text log).2.Inside bound text.length ∧ (bind x f text log).2.active = level ∧
    ((bind x f text log).1 = .refused ∨
      ∃ b, (bind x f text log).1 = .done b ∧ P b (bind x f text log).2.pos)
  unfold bind
  rcases hrun : x text log with ⟨result, log'⟩
  rw [hrun] at hinside hsame hresult
  rcases hresult with hrefused | ⟨a, hdone, hf⟩
  · obtain rfl : result = .refused := hrefused
    exact ⟨hinside, hsame, .inl rfl⟩
  · obtain rfl : result = .done a := hdone
    exact hf log' hinside hsame rfl

theorem safe_ite {c : Prop} [Decidable c] (hx : c → Safe text bound level pos x Q)
    (hy : ¬ c → Safe text bound level pos y Q) :
    Safe text bound level pos (if c then x else y) Q := by
  split <;> rename_i h
  · exact hx h
  · exact hy h

theorem safe_atEnd {Q : Bool → Nat → Prop} (hend : text.length ≤ pos → Q true pos)
    (hmore : pos < text.length → Q false pos) : Safe text bound level pos atEnd Q := by
  intro log hlog hactive hpos
  refine ⟨hlog, hactive, .inr ⟨_, rfl, ?_⟩⟩
  subst hpos
  by_cases h : text.length ≤ log.pos
  · rw [decide_eq_true h]
    exact hend h
  · rw [decide_eq_false h]
    exact hmore (Nat.not_le.mp h)

theorem safe_byteAt {i : Nat} {Q : Byte → Nat → Prop} (hi : pos + i < text.length)
    (h : ∀ b, Q b pos) : Safe text bound level pos (byteAt i) Q := by
  intro log hlog hactive hpos
  subst hpos
  unfold byteAt
  rw [List.getElem?_eq_getElem hi]
  exact ⟨hlog.access hi, hactive, .inr ⟨_, rfl, h _⟩⟩

theorem safe_remaining {Q : Nat → Nat → Prop}
    (h : pos ≤ text.length → Q (text.length - pos) pos) :
    Safe text bound level pos remaining Q := by
  intro log hlog hactive hpos
  subst hpos
  unfold remaining
  rw [if_pos hlog.inside]
  exact ⟨hlog, hactive, .inr ⟨_, rfl, h hlog.inside⟩⟩

theorem safe_substr {n : Nat} {Q : Bytes → Nat → Prop} (h : ∀ s, Q s pos) :
    Safe text bound level pos (substr n) Q := by
  intro log hlog hactive hpos
  subst hpos
  unfold substr
  rw [if_pos hlog.inside]
  exact ⟨hlog, hactive, .inr ⟨_, rfl, h _⟩⟩

theorem safe_advance {n : Nat} {Q : Unit → Nat → Prop} (hn : pos + n ≤ text.length)
    (h : Q () (pos + n)) : Safe text bound level pos (advance n) Q := by
  intro log hlog hactive hpos
  subst hpos
  exact ⟨hlog.advance hn, hactive, .inr ⟨(), rfl, h⟩⟩

theorem safe_nextIs (p : Byte → Bool) {Q : Bool → Nat → Prop}
    (hnext : pos < text.length → Q true pos) (hother : Q false pos) :
    Safe text bound level pos (nextIs p) Q := by
  unfold nextIs
  apply safe_bind
  apply safe_atEnd
  · intro _
    exact safe_pure hother
  · intro hmore
    apply safe_bind
    apply safe_byteAt hmore
    intro b
    apply safe_pure
    cases p b with
    | true => exact hnext hmore
    | false => exact hother

theorem safe_ifNext (p : Byte → Bool) (hx : pos < text.length → Safe text bound level pos x Q)
    (hy : Safe text bound level pos y Q) :
    Safe text bound level pos (nextIs p >>= fun found => if found = true then x else y) Q := by
  apply safe_bind
  apply safe_nextIs
  · intro hmore
    rw [if_pos rfl]
    exact hx hmore
  · rw [if_neg Bool.false_ne_true]
    exact hy

theorem safe_branch {p q : Byte → Bool} (hx : pos < text.length → Safe text bound level pos x Q)
    (hy : pos < text.length → Safe text bound level pos y Q) :
    Safe text bound level pos (branch p x q y) Q := by
  unfold branch
  apply safe_bind
  apply safe_atEnd
  · intro _
    exact safe_refuse
  · intro hmore
    apply safe_bind
    apply safe_byteAt hmore
    intro b
    apply safe_ite (fun _ => hx hmore)
    intro _
    apply safe_bind
    apply safe_byteAt hmore
    intro b
    exact safe_ite (fun _ => hy hmore) fun _ => safe_refuse

theorem safe_skipIf (p : Byte → Bool) {Q : Unit → Nat → Prop}
    (h : ∀ pos', pos ≤ pos' → Q () pos') : Safe text bound level pos (skipIf p) Q := by
  unfold skipIf
  apply safe_ifNext
  · intro hmore
    exact safe_advance hmore (h _ (Nat.le_succ pos))
  · exact safe_pure (h pos le_rfl)

theorem safe_skipLoop (p : Byte → Bool) {fuel : Nat} {Q : Unit → Nat → Prop}
    (hfuel : text.length - pos < fuel) (h : ∀ pos', pos ≤ pos' → Q () pos') :
    Safe text bound level pos (skipLoop p fuel) Q := by
  induction fuel generalizing pos with
  | zero => omega
  | succ fuel ih =>
    unfold skipLoop
    apply safe_ifNext
    · intro hmore
      apply safe_bind
      apply safe_advance hmore
      exact ih (by omega) fun pos' hle => h pos' (by omega)
    · exact safe_pure (h pos le_rfl)

theorem safe_skipWhile (p : Byte → Bool) {Q : Unit → Nat → Prop}
    (h : ∀ pos', pos ≤ pos' → Q () pos') : Safe text bound level pos (skipWhile p) Q := by
  intro log hlog hactive hpos
  subst hpos
  exact safe_skipLoop p (Nat.lt_succ_self _) h log hlog hactive rfl

theorem safe_tokenOf {z : Program Unit} {Q : Bytes → Nat → Prop}
    (h : Safe text bound level pos z fun _ pos' => ∀ token, Q token pos') :
    Safe text bound level pos (tokenOf z) Q := by
  intro log hlog hactive hpos
  obtain ⟨hinside, hsame, hresult⟩ := h log hlog hactive hpos
  unfold tokenOf
  rcases hrun : z text log with ⟨result, log'⟩
  rw [hrun] at hinside hsame hresult
  rcases hresult with hrefused | ⟨a, hdone, hq⟩
  · obtain rfl : result = .refused := hrefused
    exact ⟨hinside, hsame, .inl rfl⟩
  · obtain rfl : result = .done a := hdone
    exact ⟨hinside, hsame, .inr ⟨_, rfl, hq _⟩⟩

theorem safe_call (hlevel : level + 1 ≤ bound) (h : Safe text bound (level + 1) pos x Q) :
    Safe text bound level pos (call x) Q := by
  intro log hlog hactive hpos
  subst hactive hpos
  have hentered : Log.Inside bound text.length { log with
      active := log.active + 1
      levels := log.levels ++ [log.active + 1] } := by
    refine ⟨hlog.accesses, hlog.ordered, hlog.below, hlog.inside, ?_⟩
    intro l hl
    rcases List.mem_append.mp hl with hl | hl
    · exact hlog.levels l hl
    · rw [List.mem_singleton.mp hl]
      exact hlevel
  obtain ⟨hinside, hsame, hresult⟩ := h _ hentered rfl rfl
  unfold call
  refine ⟨⟨hinside.accesses, hinside.ordered, hinside.below, hinside.inside, hinside.levels⟩, ?_,
    hresult⟩
  change (x text _).2.active - 1 = log.active
  rw [hsame]
  omega

end

end Logged
