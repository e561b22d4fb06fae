import Mathlib.Tactic

/-!
# Programs that ask

A program asks for one thing after the other and goes on with each answer. It is looked at when any
number of answers have come, so that what holds of it then holds at every moment of a run, also of one
that has no end.
-/

namespace Dialogue

/-- A call and its answer. -/
structure Exchange {Call : Type} (Answer : Call → Type) where
  call : Call
  answer : Answer call

variable {Call : Type} (Answer : Call → Type)

/-- What answers a call, by all that was answered before. -/
abbrev Environment := List (Exchange Answer) → (call : Call) → Answer call

/-- What has been said, and how many answers are still to come. -/
structure Talk where
  said : List (Exchange Answer)
  left : Nat

/-- A program comes to a value, or it waits because no answer is left. -/
structure Program (α : Type) where
  run : Environment Answer → Talk Answer → Option α × Talk Answer
  spends : ∀ env t, (run env t).2.left ≤ t.left
  waits : ∀ env t, (run env t).1 = none → (run env t).2.left = 0

namespace Program

variable {Answer} {α β σ : Type}

/-! ## Building programs -/

protected def pure (a : α) : Program Answer α where
  run _ t := (some a, t)
  spends _ _ := le_rfl
  waits _ _ h := nomatch h

def bindRun (p : Program Answer α) (f : α → Program Answer β) (env : Environment Answer)
    (t : Talk Answer) : Option β × Talk Answer :=
  match p.run env t with
  | (some a, t) => (f a).run env t
  | (none, t) => (none, t)

theorem bindRun_none {p : Program Answer α} {f : α → Program Answer β} {env : Environment Answer}
    {t t' : Talk Answer} (h : p.run env t = (none, t')) : bindRun p f env t = (none, t') := by
  unfold bindRun
  rw [h]

theorem bindRun_some {p : Program Answer α} {f : α → Program Answer β} {env : Environment Answer}
    {t t' : Talk Answer} {a : α} (h : p.run env t = (some a, t')) :
    bindRun p f env t = (f a).run env t' := by
  unfold bindRun
  rw [h]

protected def bind (p : Program Answer α) (f : α → Program Answer β) : Program Answer β where
  run := bindRun p f
  spends env t := by
    have hspends := p.spends env t
    rcases hrun : p.run env t with ⟨_ | a, t'⟩
    · rw [bindRun_none hrun]
      simpa [hrun] using hspends
    · rw [bindRun_some hrun]
      rw [hrun] at hspends
      exact ((f a).spends env t').trans hspends
  waits env t h := by
    have hwaits := p.waits env t
    rcases hrun : p.run env t with ⟨_ | a, t'⟩
    · rw [bindRun_none hrun]
      simpa [hrun] using hwaits
    · rw [bindRun_some hrun] at h ⊢
      exact (f a).waits env t' h

instance : Monad (Program Answer) where
  pure := Program.pure
  bind := Program.bind

def askRun (call : Call) (env : Environment Answer) : Talk Answer → Option (Answer call) × Talk Answer
  | ⟨said, 0⟩ => (none, ⟨said, 0⟩)
  | ⟨said, n + 1⟩ => (some (env said call), ⟨said ++ [⟨call, env said call⟩], n⟩)

/-- One call. -/
def ask (call : Call) : Program Answer (Answer call) where
  run := askRun call
  spends env t := by
    obtain ⟨said, _ | n⟩ := t <;> simp [askRun]
  waits env t := by
    obtain ⟨said, _ | n⟩ := t <;> simp [askRun]

/-- A program that comes to nothing without an answer. -/
def Asks (p : Program Answer α) : Prop :=
  ∀ env t a t', p.run env t = (some a, t') → t'.left < t.left

theorem asks_ask (call : Call) : (ask call : Program Answer (Answer call)).Asks := by
  intro env t a t' h
  change askRun call env t = _ at h
  obtain ⟨said, _ | n⟩ := t
  · simp [askRun] at h
  · simp only [askRun, Prod.mk.injEq] at h
    rw [← h.2]
    exact Nat.lt_succ_self n

theorem bind_some {p : Program Answer α} {f : α → Program Answer β} {env : Environment Answer}
    {t t' : Talk Answer} {b : β} (h : (p >>= f).run env t = (some b, t')) :
    ∃ a t₁, p.run env t = (some a, t₁) ∧ (f a).run env t₁ = (some b, t') := by
  change bindRun p f env t = _ at h
  rcases hrun : p.run env t with ⟨_ | a, t₁⟩
  · rw [bindRun_none hrun] at h
    cases h
  · rw [bindRun_some hrun] at h
    exact ⟨a, t₁, rfl, h⟩

/-- What begins with such a program is one. -/
theorem Asks.bind {p : Program Answer α} (h : p.Asks) (f : α → Program Answer β) : (p >>= f).Asks := by
  intro env t b t' hrun
  obtain ⟨a, t₁, hp, hf⟩ := bind_some hrun
  have hspends := (f a).spends env t₁
  rw [hf] at hspends
  exact hspends.trans_lt (h env t a t₁ hp)

/-- A loop, for so many turns at most. -/
def loopWithin (body : σ → Program Answer (σ ⊕ α)) (env : Environment Answer) :
    Nat → σ → Talk Answer → Option α × Talk Answer
  | 0, _, t => (none, t)
  | turns + 1, s, t =>
    match (body s).run env t with
    | (some (.inl s), t) => loopWithin body env turns s t
    | (some (.inr a), t) => (some a, t)
    | (none, t) => (none, t)

theorem loopWithin_spends (body : σ → Program Answer (σ ⊕ α)) (env : Environment Answer)
    (turns : Nat) (s : σ) (t : Talk Answer) : (loopWithin body env turns s t).2.left ≤ t.left := by
  induction turns generalizing s t with
  | zero => exact le_rfl
  | succ turns ih =>
    have hspends := (body s).spends env t
    unfold loopWithin
    rcases hrun : (body s).run env t with ⟨_ | s' | a, t'⟩ <;> rw [hrun] at hspends
    · exact hspends
    · exact (ih s' t').trans hspends
    · exact hspends

/-- A loop that goes on has used an answer. -/
def Turns (body : σ → Program Answer (σ ⊕ α)) : Prop :=
  ∀ s env t s' t', (body s).run env t = (some (.inl s'), t') → t'.left < t.left

theorem turns_of_asks {body : σ → Program Answer (σ ⊕ α)} (hasks : ∀ s, (body s).Asks) : Turns body :=
  fun s env t _ t' h => hasks s env t _ t' h

/-- Such a loop has no more turns than answers. -/
theorem loopWithin_waits {body : σ → Program Answer (σ ⊕ α)} (hturns : Turns body)
    (env : Environment Answer) {turns : Nat} {t : Talk Answer} (hleft : t.left < turns) (s : σ)
    (h : (loopWithin body env turns s t).1 = none) : (loopWithin body env turns s t).2.left = 0 := by
  induction turns generalizing s t with
  | zero => omega
  | succ turns ih =>
    have hwaits := (body s).waits env t
    unfold loopWithin at h ⊢
    rcases hrun : (body s).run env t with ⟨_ | s' | a, t'⟩ <;> rw [hrun] at h hwaits
    · exact hwaits rfl
    · have hless := hturns s env t s' t' hrun
      exact ih (by omega) s' h
    · cases h

def loop (body : σ → Program Answer (σ ⊕ α)) (hturns : Turns body) (s : σ) : Program Answer α where
  run env t := loopWithin body env (t.left + 1) s t
  spends env t := loopWithin_spends body env (t.left + 1) s t
  waits env _ h := loopWithin_waits hturns env (Nat.lt_succ_self _) s h

theorem asks_loop {body : σ → Program Answer (σ ⊕ α)} (hasks : ∀ s, (body s).Asks) (s : σ) :
    (loop body (turns_of_asks hasks) s).Asks := by
  intro env t a t' h
  change loopWithin body env (t.left + 1) s t = _ at h
  unfold loopWithin at h
  rcases hrun : (body s).run env t with ⟨_ | s' | b, t₁⟩ <;> rw [hrun] at h
  · cases h
  · have hspends := loopWithin_spends body env t.left s' t₁
    simp only at h
    rw [h] at hspends
    exact hspends.trans_lt (hasks s env t _ t₁ hrun)
  · cases h
    exact hasks s env t _ t' hrun

end Program

/-! ## What is allowed to be said -/

/-- A monitor keeps a state of what has been said, which allows some calls. -/
structure Monitor where
  State : Type
  start : State
  allows : State → Call → Prop
  next : State → Exchange Answer → State

variable {Answer} {m : Monitor Answer}

/-- Each call was allowed when it was made, and this is the state that all of it leaves. -/
inductive Monitor.Follows (m : Monitor Answer) : List (Exchange Answer) → m.State → Prop
  | start : Follows m [] m.start
  | step {said : List (Exchange Answer)} {s : m.State} (exchange : Exchange Answer) :
    Follows m said s → m.allows s exchange.call → Follows m (said ++ [exchange]) (m.next s exchange)

/-- From this state a program makes allowed calls only, and where it comes to a value the value and the
state are as said. -/
def Spec {α : Type} (p : Program Answer α) (s : m.State) (post : α → m.State → Prop) : Prop :=
  ∀ env t, m.Follows t.said s →
    ∃ s', m.Follows (p.run env t).2.said s' ∧ ∀ a, (p.run env t).1 = some a → post a s'

section

variable {α β σ : Type} {s : m.State} {post : α → m.State → Prop}

theorem spec_pure {a : α} (h : post a s) : Spec (pure a : Program Answer α) s post := by
  intro env t hfollows
  refine ⟨s, hfollows, fun a' ha => ?_⟩
  cases ha
  exact h

theorem spec_ask {call : Call} {post : Answer call → m.State → Prop} (hallows : m.allows s call)
    (h : ∀ answer, post answer (m.next s ⟨call, answer⟩)) : Spec (Program.ask call) s post := by
  intro env t hfollows
  obtain ⟨said, _ | n⟩ := t
  · exact ⟨s, hfollows, nofun⟩
  · refine ⟨_, hfollows.step ⟨call, env said call⟩ hallows, fun a ha => ?_⟩
    cases ha
    exact h _

theorem Spec.bind {p : Program Answer α} {f : α → Program Answer β} {post : β → m.State → Prop}
    (h : Spec p s fun a s' => Spec (f a) s' post) : Spec (p >>= f) s post := by
  intro env t hfollows
  obtain ⟨s₁, hfollows₁, hpost⟩ := h env t hfollows
  change ∃ s', m.Follows (Program.bindRun p f env t).2.said s' ∧
    ∀ b, (Program.bindRun p f env t).1 = some b → post b s'
  rcases hrun : p.run env t with ⟨_ | a, t₁⟩
  · rw [Program.bindRun_none hrun]
    rw [hrun] at hfollows₁
    exact ⟨s₁, hfollows₁, nofun⟩
  · rw [Program.bindRun_some hrun]
    rw [hrun] at hfollows₁ hpost
    exact hpost a rfl env t₁ hfollows₁

theorem Spec.mono {p : Program Answer α} {post' : α → m.State → Prop} (h : Spec p s post)
    (hmono : ∀ a s', post a s' → post' a s') : Spec p s post' := by
  intro env t hfollows
  obtain ⟨s', hfollows', hpost⟩ := h env t hfollows
  exact ⟨s', hfollows', fun a ha => hmono a s' (hpost a ha)⟩

/-- What holds after a turn: the invariant where the loop goes on, and else its end. -/
def Turned (Inv : σ → m.State → Prop) (post : α → m.State → Prop) : σ ⊕ α → m.State → Prop
  | .inl s, x => Inv s x
  | .inr a, x => post a x

/-- What every turn keeps holds at the end of a loop. -/
theorem spec_loop {body : σ → Program Answer (σ ⊕ α)} {hturns : Program.Turns body} {start : σ}
    (Inv : σ → m.State → Prop) (hstart : Inv start s)
    (hbody : ∀ x s, Inv x s → Spec (body x) s (Turned Inv post)) :
    Spec (Program.loop body hturns start) s post := by
  have hwithin : ∀ turns x s env t, Inv x s → m.Follows t.said s →
      ∃ s', m.Follows (Program.loopWithin body env turns x t).2.said s' ∧
        ∀ a, (Program.loopWithin body env turns x t).1 = some a → post a s' := by
    intro turns
    induction turns with
    | zero => exact fun x s env t _ hfollows => ⟨s, hfollows, nofun⟩
    | succ turns ih =>
      intro x s env t hinv hfollows
      obtain ⟨s₁, hfollows₁, hturned⟩ := hbody x s hinv env t hfollows
      unfold Program.loopWithin
      rcases hrun : (body x).run env t with ⟨_ | x' | a, t₁⟩ <;> rw [hrun] at hfollows₁ hturned
      · exact ⟨s₁, hfollows₁, nofun⟩
      · exact ih x' s₁ env t₁ (hturned (.inl x') rfl) hfollows₁
      · refine ⟨s₁, hfollows₁, fun a' ha => ?_⟩
        cases ha
        exact hturned (.inr a) rfl
  exact fun env t hfollows => hwithin (t.left + 1) start s env t hstart hfollows

/-- At every moment of a run what was said was allowed, and at its end the value is as said. -/
theorem Spec.whole {p : Program Answer α} (h : Spec p m.start post) (env : Environment Answer)
    (answers : Nat) : ∃ s', m.Follows (p.run env ⟨[], answers⟩).2.said s' ∧
      ∀ a, (p.run env ⟨[], answers⟩).1 = some a → post a s' :=
  h env ⟨[], answers⟩ .start

end

/-! ## Coming to an end -/

/-- After what was said a program comes to a value, with as many answers as it takes, and the value and
what is said then are as said. -/
def Ends {α : Type} (env : Environment Answer) (p : Program Answer α) (said : List (Exchange Answer))
    (post : α → List (Exchange Answer) → Prop) : Prop :=
  ∃ a more, (∀ n, p.run env ⟨said, more.length + n⟩ = (some a, ⟨said ++ more, n⟩)) ∧ post a (said ++ more)

section

variable {α β σ : Type} {env : Environment Answer} {said : List (Exchange Answer)}
  {post : α → List (Exchange Answer) → Prop}

theorem ends_pure {a : α} (h : post a said) : Ends env (pure a : Program Answer α) said post := by
  refine ⟨a, [], fun n => ?_, by simpa using h⟩
  rw [List.append_nil, List.length_nil, Nat.zero_add]
  rfl

theorem ends_ask {call : Call} {post : Answer call → List (Exchange Answer) → Prop}
    (h : post (env said call) (said ++ [⟨call, env said call⟩])) :
    Ends env (Program.ask call) said post := by
  refine ⟨env said call, [⟨call, env said call⟩], fun n => ?_, h⟩
  rw [List.length_singleton, Nat.add_comm]
  rfl

theorem Ends.bind {p : Program Answer α} {f : α → Program Answer β}
    {post : β → List (Exchange Answer) → Prop}
    (h : Ends env p said fun a said' => Ends env (f a) said' post) : Ends env (p >>= f) said post := by
  obtain ⟨a, more, hrun, b, rest, hrest, hpost⟩ := h
  refine ⟨b, more ++ rest, fun n => ?_, by rwa [← List.append_assoc]⟩
  have hp := hrun (rest.length + n)
  change Program.bindRun p f env _ = _
  rw [List.length_append, Nat.add_assoc, Program.bindRun_some hp, hrest, List.append_assoc]

theorem Ends.mono {p : Program Answer α} {post' : α → List (Exchange Answer) → Prop}
    (h : Ends env p said post)
    (hmono : ∀ a said', said.length ≤ said'.length → post a said' → post' a said') :
    Ends env p said post' := by
  obtain ⟨a, more, hrun, hpost⟩ := h
  exact ⟨a, more, hrun, hmono a _ (by simp) hpost⟩

/-- A turn of a loop that goes on is early, or it brings the end nearer. -/
def Nearing (late : Nat) (distance : σ → Nat) (said : List (Exchange Answer)) (x : σ) (post : α → Prop) :
    σ ⊕ α → Prop
  | .inl x' => said.length < late ∨ distance x' < distance x
  | .inr a => post a

theorem loopWithin_ends {body : σ → Program Answer (σ ⊕ α)} (hturns : Program.Turns body) {late : Nat}
    {distance : σ → Nat} {begun : Nat} {post : α → Prop}
    (hbody : ∀ x said, begun ≤ said.length →
      Ends env (body x) said fun r _ => Nearing late distance said x post r)
    (x : σ) (said : List (Exchange Answer)) (hbegun : begun ≤ said.length) :
    ∃ a more, (∀ n turns, more.length < turns → Program.loopWithin body env turns x
      ⟨said, more.length + n⟩ = (some a, ⟨said ++ more, n⟩)) ∧ post a := by
  obtain ⟨r, more, hrun, hnearing⟩ := hbody x said hbegun
  cases r with
  | inr a =>
    refine ⟨a, more, fun n turns hless => ?_, hnearing⟩
    obtain ⟨turns, rfl⟩ := Nat.exists_eq_succ_of_ne_zero (Nat.ne_zero_of_lt hless)
    unfold Program.loopWithin
    rw [hrun]
  | inl x' =>
    have hmore : 0 < more.length := by simpa using hturns x env _ x' _ (hrun 0)
    have hlength : (said ++ more).length = said.length + more.length := List.length_append
    have hnearer : late - (said ++ more).length < late - said.length ∨
        late - (said ++ more).length = late - said.length ∧ distance x' < distance x := by
      rcases hnearing with hearly | hless <;> omega
    obtain ⟨a, rest, hrest, hpost⟩ := loopWithin_ends hturns hbody x' (said ++ more) (by omega)
    refine ⟨a, more ++ rest, fun n turns hless => ?_, hpost⟩
    rw [List.length_append] at hless
    obtain ⟨turns, rfl⟩ := Nat.exists_eq_succ_of_ne_zero (Nat.ne_zero_of_lt hless)
    unfold Program.loopWithin
    rw [List.length_append, Nat.add_assoc, hrun]
    simp only
    rw [hrest n turns (by omega), List.append_assoc]
termination_by (late - said.length, distance x)
decreasing_by
  rw [Prod.lex_def]
  exact hnearer

/-- A loop ends when its turns are early for so long only, and afterwards each brings the end nearer. -/
theorem ends_loop {body : σ → Program Answer (σ ⊕ α)} {hturns : Program.Turns body} (late : Nat)
    (distance : σ → Nat) {post : α → Prop}
    (hbody : ∀ x said', said.length ≤ said'.length →
      Ends env (body x) said' fun r _ => Nearing late distance said' x post r) (start : σ) :
    Ends env (Program.loop body hturns start) said fun a _ => post a := by
  obtain ⟨a, more, hrun, hpost⟩ := loopWithin_ends hturns hbody start said le_rfl
  exact ⟨a, more, fun n => hrun n _ (Nat.lt_succ_of_le (Nat.le_add_right _ _)), hpost⟩

/-- Whatever was said, a program comes to a value. -/
def Comes {α : Type} (env : Environment Answer) (p : Program Answer α) : Prop :=
  ∀ said, Ends env p said fun _ _ => True

theorem comes_pure (a : α) : Comes env (pure a : Program Answer α) := fun _ => ends_pure trivial

theorem comes_ask (call : Call) : Comes env (Program.ask call : Program Answer (Answer call)) :=
  fun _ => ends_ask trivial

theorem Comes.bind {p : Program Answer α} {f : α → Program Answer β} (h : Comes env p)
    (hf : ∀ a, Comes env (f a)) : Comes env (p >>= f) :=
  fun said => .bind ((h said).mono fun a said' _ _ => hf a said')

theorem comes_loop {body : σ → Program Answer (σ ⊕ α)} {hturns : Program.Turns body} (late : Nat)
    (distance : σ → Nat) (hbody : ∀ x said, Ends env (body x) said fun r _ =>
      Nearing late distance said x (fun _ => True) r) (start : σ) :
    Comes env (Program.loop body hturns start) :=
  fun _ => ends_loop late distance (fun x said _ => hbody x said) start

/-- So many answers are enough. -/
theorem Comes.enough {p : Program Answer α} (h : Comes env p) :
    ∃ answers a, (p.run env ⟨[], answers⟩).1 = some a := by
  obtain ⟨a, more, hrun, -⟩ := h []
  refine ⟨more.length + 0, a, ?_⟩
  rw [hrun]

end

end Dialogue
