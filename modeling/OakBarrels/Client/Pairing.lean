import OakBarrels.Client.FrameProofs
import OakBarrels.Client.Relay

/-!
# Which reply a request gets

A client whose caller waits for each request, and a station that answers each request once and in
order, over a channel that cuts and delays what it carries. The client takes the frames that arrive
for its requests in order, so that a request that was given up leaves its reply to the next.
-/

open Octets OakBarrels.Protocol

namespace OakBarrels.Client

/-- The station's replies so far, each with what the client makes of it, and the bytes of them that
are under way. -/
structure System (c : Convert) where
  relay : Relay c
  replies : List (Protocol.Frame × Frame c)
  pending : Bytes

namespace System

variable {c : Convert} {fields : Fields c}

def start (c : Convert) : System c := ⟨.attached c, [], []⟩

/-- Any timing of replies, chunks, timers and failures. -/
inductive Step (fields : Fields c) : System c → System c → Prop
  | request (s : System c) (call : Call) (frame : Frame c) (isPaused : Bool) :
      s.relay.waiter = none →
      Step fields s { s with relay := (s.relay.request fields call frame isPaused).1 }
  | reply (s : System c) (wire : Protocol.Frame) (frame : Frame c) :
      s.replies.length < s.relay.sent → wire.Fits → Reads wire frame →
      Step fields s
        { s with replies := s.replies ++ [(wire, frame)], pending := s.pending ++ wire.encoded }
  | bytes (s : System c) (chunk rest : Bytes) :
      s.pending = chunk ++ rest →
      Step fields s { s with relay := s.relay.onBytes fields chunk, pending := rest }
  | timeout (s : System c) : Step fields s { s with relay := s.relay.onTimeout }
  | fail (s : System c) (failure : Failure) :
      Step fields s { s with relay := s.relay.fail failure }

inductive Reached (fields : Fields c) : System c → Prop
  | start : Reached fields (start c)
  | step {s t : System c} : Reached fields s → Step fields s t → Reached fields t

/-! ## What the client keeps to -/

def claimed (r : Relay c) : Nat := r.outcomes.countP Outcome.isCompleted

def numbered (frames : List (Frame c)) : List (Nat × Frame c) :=
  frames.zipIdx.map fun p => (p.2 + 1, p.1)

theorem numbered_getElem? (frames : List (Frame c)) (i : Nat) :
    (numbered frames)[i]? = frames[i]?.map fun g => (i + 1, g) := by
  simp [numbered, List.getElem?_zipIdx, Function.comp_def]

theorem numbered_length (frames : List (Frame c)) : (numbered frames).length = frames.length := by
  simp [numbered]

theorem numbered_append_take (frames more : List (Frame c)) {n : Nat} (h : n ≤ frames.length) :
    (numbered (frames ++ more)).take n = (numbered frames).take n := by
  apply List.ext_getElem?
  intro i
  rw [List.getElem?_take, List.getElem?_take]
  split
  · rw [numbered_getElem?, numbered_getElem?, List.getElem?_append_left (by omega)]
  · rfl

/-- The client against the frames it is sent: it has taken a number of them in order, holds those
that have arrived since, and nobody waits while it holds one. -/
structure Claims (fields : Fields c) (frames : List (Frame c)) (r : Relay c) : Prop where
  arrived_le : r.arrived ≤ frames.length
  arrived_eq : r.arrived = claimed r + r.queued.length
  queued_eq : r.queued = ((numbered frames).take r.arrived).drop (claimed r)
  waiting : r.waiter.isSome = true → r.queued = []
  sent_eq : r.sent = r.outcomes.length + if r.waiter.isSome then 1 else 0
  completed : ∀ before call n response completion after,
    r.outcomes = before ++ .completed call n response completion :: after →
    (numbered frames)[before.countP Outcome.isCompleted]? = some (n, response)
  failed : ∀ before failure after, r.outcomes = before ++ .failed failure :: after →
    after = [] ∧ r.failure.isSome = true ∧ r.waiter = none

theorem append_one_split {α : Type} {l before after : List α} {a x : α}
    (h : l ++ [a] = before ++ x :: after) :
    (after = [] ∧ before = l ∧ x = a) ∨ ∃ rest, after = rest ++ [a] ∧ l = before ++ x :: rest := by
  rcases List.eq_nil_or_concat after with rfl | ⟨rest, last, rfl⟩
  · obtain ⟨hl, hx⟩ := List.append_inj' h rfl
    exact .inl ⟨rfl, hl.symm, (List.singleton_inj.mp hx).symm⟩
  · have hconcat : l ++ [a] = (before ++ x :: rest) ++ [last] := by simpa using h
    obtain ⟨hl, hlast⟩ := List.append_inj' hconcat rfl
    exact .inr ⟨rest, by rw [List.singleton_inj.mp hlast, List.concat_eq_append], hl⟩

section

variable {frames : List (Frame c)} {r : Relay c}

theorem attached_claims : Claims fields [] (.attached c) :=
  ⟨le_refl _, rfl, rfl, fun _ => rfl, rfl, fun before _ _ _ _ _ h => absurd h (by simp [Relay.attached]),
    fun before _ _ h => absurd h (by simp [Relay.attached])⟩

theorem Claims.more (h : Claims fields frames r) (more : List (Frame c)) :
    Claims fields (frames ++ more) r := by
  refine ⟨?_, h.arrived_eq, ?_, h.waiting, h.sent_eq, ?_, h.failed⟩
  · have := h.arrived_le
    simp
    omega
  · rw [numbered_append_take _ _ h.arrived_le]
    exact h.queued_eq
  · intro before call n response completion after hsplit
    have hold := h.completed before call n response completion after hsplit
    rw [numbered_getElem?] at hold ⊢
    obtain ⟨g, hg, -⟩ := Option.map_eq_some_iff.mp hold
    rw [List.getElem?_append_left (List.getElem?_eq_some_iff.mp hg).1]
    exact hold

theorem Claims.not_failed (h : Claims fields frames r)
    (hopen : r.failure = none ∨ r.waiter.isSome = true) (failure : Failure) :
    .failed failure ∉ r.outcomes := by
  intro hmem
  obtain ⟨before, after, hsplit⟩ := List.append_of_mem hmem
  obtain ⟨-, hfailure, hwaiter⟩ := h.failed before failure after hsplit
  rcases hopen with hnone | hsome
  · rw [hnone] at hfailure
    cases hfailure
  · rw [hwaiter] at hsome
    cases hsome

theorem Claims.of_decoder (h : Claims fields frames r) (decoder : FrameDecoder) :
    Claims fields frames { r with decoder } :=
  ⟨h.arrived_le, h.arrived_eq, h.queued_eq, h.waiting, h.sent_eq, h.completed, h.failed⟩

theorem Claims.completed_next {r' : Relay c} {call : Call} {n : Nat} {response : Frame c}
    {completion : Completion c} (h : Claims fields frames r)
    (hnext : (numbered frames)[claimed r]? = some (n, response))
    (hopen : r.failure = none ∨ r.waiter.isSome = true)
    (houtcomes : r'.outcomes = r.outcomes ++ [.completed call n response completion])
    (hwaiter : r'.waiter = none) (hsent : r'.sent = r.outcomes.length + 1)
    (harrived_le : r'.arrived ≤ frames.length)
    (harrived : r'.arrived = claimed r + 1 + r'.queued.length)
    (hqueued : r'.queued = ((numbered frames).take r'.arrived).drop (claimed r + 1)) :
    Claims fields frames r' := by
  have hclaimed : claimed r' = claimed r + 1 := by
    simp [claimed, houtcomes, Outcome.isCompleted]
  refine ⟨harrived_le, by rw [hclaimed]; exact harrived, by rw [hclaimed]; exact hqueued,
    by simp [hwaiter], by simp [hsent, houtcomes, hwaiter], ?_, ?_⟩
  · intro before call' m response' completion' after hsplit
    rw [houtcomes] at hsplit
    rcases append_one_split hsplit with ⟨-, rfl, hlast⟩ | ⟨rest, -, hold⟩
    · cases hlast
      exact hnext
    · exact h.completed before call' m response' completion' rest hold
  · intro before failure after hsplit
    have hmem : Outcome.failed failure ∈ r.outcomes ++ [.completed call n response completion] := by
      rw [← houtcomes, hsplit]
      simp
    simp only [List.mem_append, List.mem_singleton, reduceCtorEq, or_false] at hmem
    exact absurd hmem (h.not_failed hopen failure)

theorem Claims.given_up {r' : Relay c} {outcome : Outcome c} (h : Claims fields frames r)
    (hwaiting : r.waiter.isSome = true) (hnot : outcome.isCompleted = false)
    (houtcomes : r'.outcomes = r.outcomes ++ [outcome]) (hwaiter : r'.waiter = none)
    (hfailed : ∀ failure, outcome = .failed failure → r'.failure.isSome = true)
    (hsent : r'.sent = r.sent) (harrived : r'.arrived = r.arrived)
    (hqueued : r'.queued = r.queued) : Claims fields frames r' := by
  have hclaimed : claimed r' = claimed r := by
    simp [claimed, houtcomes, hnot]
  refine ⟨by rw [harrived]; exact h.arrived_le,
    by rw [harrived, hclaimed, hqueued]; exact h.arrived_eq,
    by rw [hqueued, harrived, hclaimed]; exact h.queued_eq, by simp [hwaiter], ?_, ?_, ?_⟩
  · rw [hsent, h.sent_eq, houtcomes]
    simp [hwaiter, hwaiting]
  · intro before call n response completion after hsplit
    rw [houtcomes] at hsplit
    rcases append_one_split hsplit with ⟨-, -, rfl⟩ | ⟨rest, -, hold⟩
    · cases hnot
    · exact h.completed before call n response completion rest hold
  · intro before failure after hsplit
    rw [houtcomes] at hsplit
    rcases append_one_split hsplit with ⟨rfl, -, hlast⟩ | ⟨rest, -, hold⟩
    · exact ⟨rfl, hfailed failure hlast.symm, hwaiter⟩
    · have hmem : Outcome.failed failure ∈ r.outcomes := by
        rw [hold]
        simp
      exact absurd hmem (h.not_failed (.inr hwaiting) failure)

theorem Claims.keeps {r' : Relay c} {frame : Frame c} (h : Claims fields frames r)
    (hnext : frames[r.arrived]? = some frame) (houtcomes : r'.outcomes = r.outcomes)
    (hwaiter : r.waiter = none) (hsame : r'.waiter = r.waiter ∧ r'.failure = r.failure)
    (hsent : r'.sent = r.sent) (harrived : r'.arrived = r.arrived + 1)
    (hqueued : r'.queued = r.queued ++ [(r.arrived + 1, frame)]) : Claims fields frames r' := by
  obtain ⟨hlt, -⟩ := List.getElem?_eq_some_iff.mp hnext
  have hclaimed : claimed r' = claimed r := by rw [claimed, houtcomes, claimed]
  have hcount := h.arrived_eq
  have hnumber : (numbered frames)[r.arrived]? = some (r.arrived + 1, frame) := by
    rw [numbered_getElem?, hnext]
    rfl
  refine ⟨by omega, ?_, ?_, by simp [hsame.1, hwaiter], ?_, ?_, ?_⟩
  · rw [harrived, hclaimed, hqueued, List.length_append, List.length_singleton]
    omega
  · have hlength : ((numbered frames).take r.arrived).length = r.arrived := by
      rw [List.length_take_of_le]
      rw [numbered_length]
      exact hlt.le
    rw [hqueued, harrived, hclaimed, List.take_add_one, hnumber, h.queued_eq,
      List.drop_append_of_le_length (by omega)]
    rfl
  · rw [hsent, houtcomes, hsame.1]
    exact h.sent_eq
  · rw [houtcomes]
    exact h.completed
  · rw [houtcomes, hsame.1, hsame.2]
    exact h.failed

/-! ## What each event does to the claims -/

theorem Claims.deliver (h : Claims fields frames r) {frame : Frame c}
    (hnext : frames[r.arrived]? = some frame) : Claims fields frames (r.deliver fields frame) := by
  obtain ⟨hlt, -⟩ := List.getElem?_eq_some_iff.mp hnext
  have hnumber : (numbered frames)[r.arrived]? = some (r.arrived + 1, frame) := by
    rw [numbered_getElem?, hnext]
    rfl
  have harrived := h.arrived_eq
  unfold Relay.deliver
  simp only
  cases hwaiter : r.waiter with
  | some call =>
    have hempty := h.waiting (by simp [hwaiter])
    have hclaimed : claimed r = r.arrived := by simpa [hempty] using harrived.symm
    have hsent := h.sent_eq
    simp only [hwaiter, Option.isSome_some, if_true] at hsent
    refine h.completed_next (by rw [hclaimed]; exact hnumber) (.inr (by simp [hwaiter])) rfl rfl
      hsent hlt ?_ ?_
    · simp [Relay.complete, Relay.settle, hempty, hclaimed]
    · simp [Relay.complete, Relay.settle, hempty, hclaimed]
  | none => exact h.keeps hnext rfl hwaiter ⟨hwaiter.symm, rfl⟩ rfl rfl rfl

theorem Claims.delivers {rest : List (Frame c)} (h : Claims fields frames r)
    (hrest : rest <+: frames.drop r.arrived) :
    Claims fields frames (rest.foldl (Relay.deliver fields) r) ∧
      (rest.foldl (Relay.deliver fields) r).arrived = r.arrived + rest.length := by
  induction rest generalizing r with
  | nil => exact ⟨h, rfl⟩
  | cons frame rest ih =>
    obtain ⟨more, hmore⟩ := hrest
    have hnext : frames[r.arrived]? = some frame := by
      rw [← Nat.add_zero r.arrived, ← List.getElem?_drop, ← hmore]
      rfl
    have harrived : (r.deliver fields frame).arrived = r.arrived + 1 := by
      unfold Relay.deliver
      simp only
      split <;> rfl
    have htail : rest <+: frames.drop (r.deliver fields frame).arrived := by
      refine ⟨more, ?_⟩
      rw [harrived, ← List.drop_drop, ← hmore]
      rfl
    obtain ⟨hclaims, hcount⟩ := ih (h.deliver hnext) htail
    refine ⟨hclaims, ?_⟩
    rw [List.foldl_cons, hcount, harrived, List.length_cons]
    omega

theorem Claims.request (h : Claims fields frames r) (hwaiter : r.waiter = none) (call : Call)
    (frame : Frame c) (isPaused : Bool) :
    Claims fields frames (r.request fields call frame isPaused).1 := by
  unfold Relay.request
  split
  · exact h
  · rename_i hfailure
    have hopen : r.failure = none ∨ r.waiter.isSome = true := .inl (by simpa using hfailure)
    have hsent := h.sent_eq
    simp only [hwaiter, Option.isSome_none, Bool.false_eq_true, if_false, Nat.add_zero] at hsent
    split
    · exact h
    · split
      · exact h
      · have harrived := h.arrived_eq
        have hqueued := h.queued_eq
        simp only
        split
        · rename_i arrival response rest hqueue
          rw [hqueue] at harrived hqueued
          simp only [List.length_cons] at harrived
          have hlt : claimed r < r.arrived := by omega
          have hnext : (numbered frames)[claimed r]? = some (arrival, response) := by
            have hhead := congrArg (fun l => l[0]?) hqueued
            simp only [List.getElem?_cons_zero, List.getElem?_drop, Nat.add_zero,
              List.getElem?_take, if_pos hlt] at hhead
            exact hhead.symm
          have htail : rest = ((numbered frames).take r.arrived).drop (claimed r + 1) := by
            rw [← List.drop_drop, ← hqueued]
            rfl
          refine h.completed_next hnext hopen rfl rfl ?_ h.arrived_le ?_ htail
          · simp [Relay.complete, Relay.settle, hsent]
          · simp [Relay.complete, Relay.settle]
            omega
        · rename_i hqueue
          exact ⟨h.arrived_le, h.arrived_eq, h.queued_eq, fun _ => hqueue, by simp [hsent],
            h.completed, fun before failure after hsplit =>
              absurd (by rw [hsplit]; simp) (h.not_failed hopen failure)⟩

theorem Claims.timeout (h : Claims fields frames r) : Claims fields frames r.onTimeout := by
  unfold Relay.onTimeout
  split
  · rename_i call hwaiter
    exact h.given_up (by simp [hwaiter]) rfl rfl rfl (fun _ h => by cases h) rfl rfl rfl
  · exact h

theorem Claims.fail (h : Claims fields frames r) (failure : Failure) :
    Claims fields frames (r.fail failure) := by
  unfold Relay.fail
  split
  · exact h
  · rename_i hnone
    simp only
    split
    · rename_i call hwaiter
      exact h.given_up (by simp [hwaiter]) rfl rfl rfl (fun _ _ => rfl) rfl rfl rfl
    · exact ⟨h.arrived_le, h.arrived_eq, h.queued_eq, h.waiting, h.sent_eq, h.completed,
        fun before failure after hsplit =>
          absurd (by rw [hsplit]; simp) (h.not_failed (.inl hnone) failure)⟩

end

/-! ## The wire -/

section

variable (r : Relay c)

theorem deliver_decoder (frame : Frame c) : (r.deliver fields frame).decoder = r.decoder := by
  unfold Relay.deliver
  simp only
  split <;> rfl

theorem foldl_deliver_decoder (frames : List (Frame c)) (r : Relay c) :
    (frames.foldl (Relay.deliver fields) r).decoder = r.decoder :=
  Runs.foldl_keeps deliver_decoder frames r

theorem request_decoder (fields : Fields c) (r : Relay c) (call : Call) (frame : Frame c)
    (isPaused : Bool) :
    (r.request fields call frame isPaused).1.decoder = r.decoder ∧
      (r.request fields call frame isPaused).1.arrived = r.arrived := by
  unfold Relay.request
  split
  · exact ⟨rfl, rfl⟩
  · split
    · exact ⟨rfl, rfl⟩
    · split
      · exact ⟨rfl, rfl⟩
      · simp only
        split <;> exact ⟨rfl, rfl⟩

theorem onTimeout_decoder :
    r.onTimeout.decoder = r.decoder ∧ r.onTimeout.arrived = r.arrived := by
  unfold Relay.onTimeout
  split <;> exact ⟨rfl, rfl⟩

theorem fail_decoder (failure : Failure) :
    (r.fail failure).decoder = r.decoder ∧ (r.fail failure).arrived = r.arrived := by
  unfold Relay.fail
  split
  · exact ⟨rfl, rfl⟩
  · simp only
    split <;> exact ⟨rfl, rfl⟩

end

/-- The client against the station: what it has not yet taken apart is what the station has sent
beyond the frames that have arrived. -/
structure Inv (fields : Fields c) (s : System c) : Prop where
  claims : Claims fields (s.replies.map Prod.snd) s.relay
  fits : ∀ p ∈ s.replies, p.1.Fits
  reads : ∀ p ∈ s.replies, Reads p.1 p.2
  stream : s.relay.decoder.buffer ++ s.pending
    = encodeAll ((s.replies.drop s.relay.arrived).map Prod.fst)

theorem Inv.bytes {s : System c} (h : Inv fields s) {chunk rest : Bytes}
    (hpending : s.pending = chunk ++ rest) :
    Inv fields { s with relay := s.relay.onBytes fields chunk, pending := rest } := by
  have hstream := h.stream
  rw [hpending, ← List.append_assoc] at hstream
  set coming := s.replies.drop s.relay.arrived with hcoming
  have hmem : ∀ p ∈ coming, p ∈ s.replies := fun p hp => List.mem_of_mem_drop hp
  have hfits : ∀ f ∈ coming.map Prod.fst, f.Fits := by
    intro f hf
    obtain ⟨p, hp, rfl⟩ := List.mem_map.mp hf
    exact h.fits p (hmem p hp)
  have hreads : List.Forall₂ Reads (coming.map Prod.fst) (coming.map Prod.snd) := by
    rw [List.forall₂_map_left_iff, List.forall₂_map_right_iff, List.forall₂_same]
    exact fun p hp => h.reads p (hmem p hp)
  obtain ⟨k, decoder, hadd, hmore, -⟩ := add_spec hfits hreads hstream
  have hprefix : (coming.map Prod.snd).take k <+:
      (s.replies.map Prod.snd).drop s.relay.arrived := by
    rw [← List.map_drop]
    exact List.take_prefix _ _
  obtain ⟨hclaims, harrived⟩ := (h.claims.of_decoder decoder).delivers hprefix
  have hrelay : s.relay.onBytes fields chunk
      = ((coming.map Prod.snd).take k).foldl (Relay.deliver fields) { s.relay with decoder } := by
    unfold Relay.onBytes
    rw [hadd]
  have hdrop : s.replies.drop (s.relay.arrived + ((coming.map Prod.snd).take k).length)
      = coming.drop k := by
    rw [← List.drop_drop, ← hcoming, List.length_take, List.length_map]
    rcases Nat.le_total k coming.length with hk | hk
    · rw [Nat.min_eq_left hk]
    · rw [Nat.min_eq_right hk, List.drop_length, List.drop_of_length_le hk]
  refine ⟨?_, h.fits, h.reads, ?_⟩
  · simp only [hrelay]
    exact hclaims
  · simp only [hrelay, foldl_deliver_decoder, harrived, hdrop, List.map_drop]
    exact hmore

theorem Inv.step {s t : System c} (h : Inv fields s) (hs : Step fields s t) : Inv fields t := by
  cases hs with
  | request call frame isPaused hwaiter =>
    obtain ⟨hdecoder, harrived⟩ := request_decoder fields s.relay call frame isPaused
    exact ⟨h.claims.request hwaiter call frame isPaused, h.fits, h.reads,
      by simp only [hdecoder, harrived]; exact h.stream⟩
  | reply wire frame hlt hfits hreads =>
    have hle := h.claims.arrived_le
    rw [List.length_map] at hle
    refine ⟨?_, ?_, ?_, ?_⟩
    · rw [List.map_append]
      exact h.claims.more _
    · intro p hp
      simp only [List.mem_append, List.mem_singleton] at hp
      rcases hp with hp | rfl
      · exact h.fits p hp
      · exact hfits
    · intro p hp
      simp only [List.mem_append, List.mem_singleton] at hp
      rcases hp with hp | rfl
      · exact h.reads p hp
      · exact hreads
    · simp only [List.drop_append_of_le_length hle, List.map_append,
        FrameDecoder.encodeAll_append, ← List.append_assoc, h.stream]
      simp [encodeAll]
  | bytes chunk rest hpending => exact h.bytes hpending
  | timeout =>
    obtain ⟨hdecoder, harrived⟩ := onTimeout_decoder s.relay
    exact ⟨h.claims.timeout, h.fits, h.reads,
      by simp only [hdecoder, harrived]; exact h.stream⟩
  | fail failure =>
    obtain ⟨hdecoder, harrived⟩ := fail_decoder s.relay failure
    exact ⟨h.claims.fail failure, h.fits, h.reads,
      by simp only [hdecoder, harrived]; exact h.stream⟩

theorem Reached.inv {s : System c} (h : Reached fields s) : Inv fields s := by
  induction h with
  | start =>
    exact ⟨attached_claims, by simp [System.start], by simp [System.start], rfl⟩
  | step _ hs ih => exact ih.step hs

/-! ## Once a request has timed out -/

def Ended (r : Relay c) : Prop :=
  ∀ before after, r.outcomes = before ++ .timedOut :: after → after = [] ∧ r.waiter = none

section

variable {r r' : Relay c}

theorem Ended.of_not_mem (h : .timedOut ∉ r.outcomes) : Ended r := by
  intro before after hsplit
  exact absurd (by rw [hsplit]; simp) h

theorem Ended.not_mem (h : Ended r) (hwaiter : r.waiter.isSome = true) :
    .timedOut ∉ r.outcomes := by
  intro hmem
  obtain ⟨before, after, hsplit⟩ := List.append_of_mem hmem
  rw [(h before after hsplit).2] at hwaiter
  cases hwaiter

theorem Ended.next {outcome : Outcome c} (h : .timedOut ∉ r.outcomes)
    (houtcomes : r'.outcomes = r.outcomes ++ [outcome]) (hwaiter : r'.waiter = none) :
    Ended r' := by
  intro before after hsplit
  rw [houtcomes] at hsplit
  rcases append_one_split hsplit with ⟨rfl, -, -⟩ | ⟨rest, -, hold⟩
  · exact ⟨rfl, hwaiter⟩
  · exact absurd (by rw [hold]; simp) h

theorem Ended.deliver (h : Ended r) (frame : Frame c) : Ended (r.deliver fields frame) := by
  unfold Relay.deliver
  simp only
  cases hwaiter : r.waiter with
  | some call => exact .next (h.not_mem (by simp [hwaiter])) rfl rfl
  | none => exact fun before after hsplit => ⟨(h before after hsplit).1, rfl⟩

theorem Ended.delivers (frames : List (Frame c)) (h : Ended r) :
    Ended (frames.foldl (Relay.deliver fields) r) := by
  induction frames generalizing r with
  | nil => exact h
  | cons frame rest ih => exact ih (h.deliver frame)

theorem Ended.of_decoder (h : Ended r) (decoder : FrameDecoder) : Ended { r with decoder } := h

theorem Ended.fail (h : Ended r) (failure : Failure) : Ended (r.fail failure) := by
  unfold Relay.fail
  split
  · exact h
  · simp only
    split
    · rename_i call hwaiter
      exact .next (h.not_mem (by simp [hwaiter])) rfl rfl
    · exact h

theorem Ended.timeout (h : Ended r) : Ended r.onTimeout := by
  unfold Relay.onTimeout
  split
  · rename_i call hwaiter
    exact .next (h.not_mem (by simp [hwaiter])) rfl rfl
  · exact h

theorem Ended.bytes (h : Ended r) (chunk : Bytes) : Ended (r.onBytes fields chunk) := by
  unfold Relay.onBytes
  split
  · exact (h.of_decoder _).fail _
  · exact h.of_decoder _
  · exact (h.of_decoder _).delivers _

theorem Ended.request (h : Ended r) (call : Call) (frame : Frame c) (isPaused : Bool)
    (hsent : (r.request fields call frame isPaused).1.sent ≠ r.sent → .timedOut ∉ r.outcomes) :
    Ended (r.request fields call frame isPaused).1 := by
  revert hsent
  unfold Relay.request
  split
  · exact fun _ => h
  split
  · exact fun _ => h
  split
  · exact fun _ => h
  simp only
  split
  · intro hsent
    exact .next (hsent (by simp [Relay.complete, Relay.settle])) rfl rfl
  · intro hsent
    exact .of_not_mem (hsent (by simp))

end

/-- Runs in which nothing is sent once a request has timed out. -/
inductive Careful (fields : Fields c) : System c → Prop
  | start : Careful fields (start c)
  | step {s t : System c} : Careful fields s → Step fields s t →
      (t.relay.sent ≠ s.relay.sent → .timedOut ∉ s.relay.outcomes) → Careful fields t

theorem Careful.reached {s : System c} (h : Careful fields s) : Reached fields s := by
  induction h with
  | start => exact .start
  | step _ hs _ ih => exact .step ih hs

theorem Careful.ended {s : System c} (h : Careful fields s) : Ended s.relay := by
  induction h with
  | start => exact .of_not_mem (by simp [System.start, Relay.attached])
  | step _ hs hsent ih =>
    cases hs with
    | request call frame isPaused _ => exact ih.request call frame isPaused hsent
    | reply => exact ih
    | bytes chunk _ _ => exact ih.bytes chunk
    | timeout => exact ih.timeout
    | fail failure => exact ih.fail failure

/-! ## The reply of a request -/

/-- Every request but a shutdown that completes does so on the reply the station gave to it. -/
def Paired (s : System c) : Prop :=
  ∀ before call n response completion after,
    s.relay.outcomes = before ++ .completed call n response completion :: after →
    call ≠ .shutdown →
    ∃ wire, s.replies[before.length]? = some (wire, response) ∧ n = before.length + 1

/-- No request but a shutdown completes once one has timed out. -/
def SilentAfterTimeout (s : System c) : Prop :=
  ∀ before call n response completion after,
    s.relay.outcomes = before ++ .completed call n response completion :: after →
    call ≠ .shutdown → .timedOut ∉ before

theorem Ended.silent {s : System c} (h : Ended s.relay) : SilentAfterTimeout s := by
  intro before call n response completion after hsplit _ hmem
  obtain ⟨first, rest, rfl⟩ := List.append_of_mem hmem
  obtain ⟨hlast, -⟩ := h first (rest ++ .completed call n response completion :: after)
    (by rw [hsplit]; simp)
  simp at hlast

theorem Inv.paired {s : System c} (h : Inv fields s) (hsilent : SilentAfterTimeout s) :
    Paired s := by
  intro before call n response completion after hsplit hcall
  have hall : before.countP Outcome.isCompleted = before.length := by
    rw [List.countP_eq_length]
    intro outcome hmem
    cases outcome with
    | completed => rfl
    | timedOut => exact absurd hmem (hsilent before call n response completion after hsplit hcall)
    | failed failure =>
      obtain ⟨first, rest, rfl⟩ := List.append_of_mem hmem
      have hlast := h.claims.failed first failure
        (rest ++ .completed call n response completion :: after) (by rw [hsplit]; simp)
      simp at hlast
  have hnumber := h.claims.completed before call n response completion after hsplit
  rw [hall, numbered_getElem?, List.getElem?_map] at hnumber
  obtain ⟨g, hg, hpair⟩ := Option.map_eq_some_iff.mp hnumber
  obtain ⟨⟨wire, received⟩, hreply, hreceived⟩ := Option.map_eq_some_iff.mp hg
  cases hreceived
  cases hpair
  exact ⟨wire, hreply, rfl⟩

theorem Inv.silent {s : System c} (h : Inv fields s) (hpaired : Paired s) :
    SilentAfterTimeout s := by
  intro before call n response completion after hsplit hcall hmem
  obtain ⟨wire, -, hn⟩ := hpaired before call n response completion after hsplit hcall
  have hnumber := h.claims.completed before call n response completion after hsplit
  rw [numbered_getElem?] at hnumber
  obtain ⟨_, _, hpair⟩ := Option.map_eq_some_iff.mp hnumber
  have hall : before.countP Outcome.isCompleted = before.length := by
    have hnext := congrArg Prod.fst hpair
    simp only at hnext
    omega
  have hcompleted := List.countP_eq_length.mp hall _ hmem
  cases hcompleted

/-- **Which reply a request gets.** In every run that sends nothing once a request has timed out,
the requests that complete do so on their own replies; and in any run they do exactly when none
completes once one has timed out. -/
theorem replies_paired (fields : Fields c) :
    (∀ s, Careful fields s → Paired s) ∧
      ∀ s, Reached fields s → (Paired s ↔ SilentAfterTimeout s) :=
  ⟨fun _ h => h.reached.inv.paired h.ended.silent,
    fun _ h => ⟨h.inv.silent, h.inv.paired⟩⟩

/-! ## A reply that comes late -/

theorem onBytes_one {r : Relay c} {wire : Protocol.Frame} {frame : Frame c} (hfits : wire.Fits)
    (hreads : Reads wire frame) (hdecoder : r.decoder = ⟨[]⟩) :
    r.onBytes fields wire.encoded = r.deliver fields frame := by
  unfold Relay.onBytes
  rw [hdecoder, add_one hfits hreads]
  cases r
  cases hdecoder
  rfl

/-- Whatever the calls and the reply: the next request takes the reply of one that timed out. -/
theorem exists_unpaired (fields : Fields c) (first second : Call)
    {question request reply : Frame c} {wire : Protocol.Frame} {asked sent : Bytes} (hsecond : second ≠ .shutdown)
    (hasked : question.encode = some asked) (hsent : request.encode = some sent)
    (hfits : wire.Fits) (hreads : Reads wire reply) :
    ∃ s, Reached fields s ∧ ¬ Paired s := by
  let first' : Relay c := { Relay.attached c with outcomes := [.timedOut], sent := 1 }
  have hasking : ((Relay.attached c).request fields first question false).1.onTimeout = first' := by
    simp [Relay.request, hasked, Relay.attached, Relay.onTimeout, Relay.settle, first']
  have hlate : first'.onBytes fields wire.encoded
      = { first' with queued := [(1, reply)], arrived := 1 } := by
    rw [onBytes_one hfits hreads rfl]
    rfl
  have htimeout : Reached fields ⟨first', [], []⟩ := by
    rw [← hasking]
    exact .step (.step .start (.request (start c) first question false rfl)) (.timeout _)
  have hreply : Reached fields ⟨first', [(wire, reply)], wire.encoded⟩ :=
    .step htimeout (.reply _ wire reply (by simp [first']) hfits hreads)
  have hheld := Reached.step hreply (.bytes _ wire.encoded [] (by simp))
  simp only [hlate] at hheld
  refine ⟨_, .step hheld (.request _ second request false rfl), ?_⟩
  intro hpaired
  obtain ⟨-, -, hnumber⟩ := hpaired [.timedOut] second 1 reply (second.complete fields reply) []
    (by simp [Relay.request, hsent, Relay.complete, Relay.settle, Relay.attached, first']) hsecond
  simp at hnumber

/-- Fields of an object of the station's JSON: an `int` where the number is whole. -/
def asciiFields : Fields asciiConvert where
  int m key :=
    match m.lookup key with
    | some (.number x) => if x.beq (.ofInt x.truncate) then some x.truncate else none
    | _ => none
  string m key :=
    match m.lookup key with
    | some (.string text) => some text
    | _ => none

/-- A negotiation that times out, and a post that takes its HELLO_ACK for success. -/
theorem replies_unpaired :
    ¬ ∀ s : System asciiConvert, Reached asciiFields s → Paired s := by
  intro hpaired
  let question : Frame asciiConvert :=
    ⟨.hello, [(ascii "revisions", .array [.number (.ofInt 1)])]⟩
  let request : Frame asciiConvert :=
    ⟨.post, [(ascii "handle", .number (.ofInt 1)), (ascii "action", .string (ascii "play"))]⟩
  let wire : Protocol.Frame :=
    ⟨.helloAck, ascii "\x7b\"revision\":1,\"features\":[]\x7d"⟩
  have hfits : question.wire.Fits ∧ request.wire.Fits ∧ wire.Fits := by
    unfold Protocol.Frame.Fits
    decide +kernel
  obtain ⟨reply, hreads⟩ := exists_reads asciiConvert wire (by decide)
    (by decide +kernel)
  obtain ⟨s, hs, hunpaired⟩ := exists_unpaired asciiFields .negotiate .post (by decide)
    (encode_of_fits question hfits.1) (encode_of_fits request hfits.2.1) hfits.2.2 hreads
  exact hunpaired (hpaired s hs)

theorem replies_paired_one :
    ∃ s : System asciiConvert, Careful asciiFields s ∧
      s.relay.outcomes.countP Outcome.isCompleted = 1 ∧ Paired s ∧ SilentAfterTimeout s := by
  let request : Frame asciiConvert := ⟨.capsRequest, []⟩
  let wire : Protocol.Frame :=
    ⟨.capsReply, ascii "\x7b\"classes\":[],\"limits\":\x7b\x7d,\"bulk\":false\x7d"⟩
  have hfits : request.wire.Fits ∧ wire.Fits := by
    unfold Protocol.Frame.Fits
    decide +kernel
  obtain ⟨reply, hreads⟩ := exists_reads asciiConvert wire (by decide)
    (by decide +kernel)
  let waiting : Relay asciiConvert :=
    { Relay.attached asciiConvert with waiter := some .capabilities, sent := 1 }
  have hsent : (Relay.attached asciiConvert).request asciiFields .capabilities request false
      = (waiting, some request.wire.encoded) := by
    simp [Relay.request, Relay.attached, encode_of_fits request hfits.1, waiting]
  have hrequest := Careful.step .start
    (.request (start asciiConvert) .capabilities request false rfl : Step asciiFields _ _)
    (fun _ => by simp [start, Relay.attached])
  simp only [show (start asciiConvert).relay = .attached asciiConvert from rfl, hsent] at hrequest
  have hreply := Careful.step hrequest
    (.reply _ wire reply (by simp [start, waiting]) hfits.2 hreads) (absurd rfl)
  have hbytes := Careful.step hreply
    (.bytes _ wire.encoded [] (by simp [start])) (by simp [waiting, Relay.attached])
  simp only [onBytes_one hfits.2 hreads (show waiting.decoder = ⟨[]⟩ from rfl)] at hbytes
  refine ⟨_, hbytes, rfl, (replies_paired asciiFields).1 _ hbytes, ?_⟩
  exact ((replies_paired asciiFields).2 _ hbytes.reached).mp
    ((replies_paired asciiFields).1 _ hbytes)

end System

end OakBarrels.Client
