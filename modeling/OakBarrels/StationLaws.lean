import OakBarrels.Protocol.Splits
import OakBarrels.SessionLaws
import OakBarrels.Station

/-!
# How a conversation goes and ends

What the station does with a stream depends on the bytes alone, not on the reads that brought them.
From that: what its exit code says, and what the host has received once a write has failed.
-/

open Octets Binary64

namespace OakBarrels

open Json Protocol

/-! ## The frames of a stream -/

namespace Protocol

theorem next_encoded {f : Frame} (h : f.Fits) (rest : Bytes) :
    FrameDecoder.next ⟨f.encoded ++ rest, .none⟩ = (⟨rest, .none⟩, some f) := by
  have hspec := FrameDecoder.next_spec (f.encoded ++ rest)
  generalize FrameDecoder.next ⟨f.encoded ++ rest, .none⟩ = r at hspec
  cases hspec with
  | takes g rest' hg hsplit =>
    obtain ⟨rfl, rfl⟩ := encoded_inj h hg hsplit
    rfl
  | waits hshort => exact absurd hshort (not_short_encoded f h rest)
  | fails e hviolates => exact absurd hviolates (not_violates_encoded f h rest e)

theorem next_end {rest : Bytes} {e : DecodeError} (h : Ends rest e) :
    FrameDecoder.next ⟨rest, .none⟩ = (⟨rest, e⟩, none) := by
  have hspec := FrameDecoder.next_spec rest
  generalize FrameDecoder.next ⟨rest, .none⟩ = r at hspec
  cases hspec with
  | takes g rest' hg hsplit =>
    subst hsplit
    exact absurd h (not_ends_encoded g hg rest' e)
  | waits hshort =>
    obtain rfl := ends_unique h (.inl ⟨rfl, hshort⟩)
    rfl
  | fails e' hviolates =>
    obtain rfl := ends_unique h (.inr hviolates)
    rfl

/-- The frames of a stream in one piece, and the decoder that has taken them. -/
def takeFrames : Nat → FrameDecoder → List Frame × FrameDecoder
  | 0, d => ([], d)
  | turns + 1, d =>
    match d.next with
    | (d, none) => ([], d)
    | (d, some frame) =>
      let (frames, d) := takeFrames turns d
      (frame :: frames, d)

def framesOf (stream : Bytes) : List Frame × FrameDecoder :=
  takeFrames (stream.length + 1) ⟨stream, .none⟩

theorem length_le_encodeAll (frames : List Frame) : frames.length ≤ (encodeAll frames).length := by
  induction frames with
  | nil => simp
  | cons f frames ih =>
    have hpos := encoded_length_pos f
    simp only [encodeAll, List.flatMap_cons, List.length_cons, List.length_append] at ih ⊢
    omega

theorem Splits.framesOf_eq {stream rest : Bytes} {frames : List Frame} {e : DecodeError}
    (h : Splits stream frames rest e) : framesOf stream = (frames, ⟨rest, e⟩) := by
  have hturns : ∀ turns (frames : List Frame), frames.length < turns → (∀ f ∈ frames, f.Fits) →
      takeFrames turns ⟨encodeAll frames ++ rest, .none⟩ = (frames, ⟨rest, e⟩) := by
    intro turns frames
    induction frames generalizing turns with
    | nil =>
      intro hlt _
      obtain ⟨turns, rfl⟩ := Nat.exists_eq_succ_of_ne_zero (Nat.ne_of_gt hlt)
      simp [takeFrames, encodeAll, next_end h.ends]
    | cons f frames ih =>
      intro hlt hfits
      obtain ⟨turns, rfl⟩ := Nat.exists_eq_succ_of_ne_zero (Nat.ne_of_gt (Nat.zero_lt_of_lt hlt))
      have hnext := next_encoded (hfits f (by simp)) (encodeAll frames ++ rest)
      have hrest := ih turns (by simpa using hlt) fun g hg => hfits g (by simp [hg])
      rw [← List.append_assoc] at hnext
      simp [takeFrames, encodeAll] at hnext hrest ⊢
      simp [hnext, hrest]
  have hlength := length_le_encodeAll frames
  rw [framesOf, h.stream_eq]
  exact hturns _ frames (by rw [List.length_append]; omega) h.fits

end Protocol

variable {σ : Type} (unrepresentable : Unrepresentable) (backend : EngineBackend σ)

/-! ## The course of a conversation -/

/-- The session over the frames of a stream: whether it is still open after them, what became of it,
and the frames it was given. -/
def serve : World σ → List Frame → Bool × World σ × List Frame
  | w, [] => (true, w, [])
  | w, frame :: frames =>
    let (open', world) := w.handle unrepresentable backend frame
    if open' then
      let (open', world, handed) := serve world frames
      (open', world, frame :: handed)
    else (false, world, [frame])

/-- How a conversation ends. -/
inductive Close
  | bye
  | beforeHello
  | malformedHello
  | noCommonRevision
  | violation
  | midFrame
  | closed
  | readFailed
deriving DecidableEq, Repr

/-- A HELLO with a payload that has an array of revisions. -/
def wellFormedHello (frame : Frame) : Bool :=
  ((parsePayload frame).bind fun payload => payload.find (ascii "revisions")).any Value.isArray

/-- The end of a session, by the frame that ended it. -/
def closing (frame : Frame) : Close :=
  if frame.type = .bye then .bye
  else if frame.type ≠ .hello then .beforeHello
  else if wellFormedHello frame then .noCommonRevision
  else .malformedHello

/-- By the session, by the stream, or by its end. -/
def closeAt (open' : Bool) (handed : List Frame) (decoder : FrameDecoder) (ending : Ending) : Close :=
  if ¬ open' then (handed.getLast?.map closing).getD .bye
  else if decoder.failed then .violation
  else
    match ending with
    | .failed => .readFailed
    | .closed => if decoder.buffer = [] then .closed else .midFrame

/-- How the conversation over a stream ends. -/
def course (w : World σ) (stream : Bytes) (ending : Ending) : Close :=
  let (frames, decoder) := framesOf stream
  let (open', _, handed) := serve unrepresentable backend w frames
  closeAt open' handed decoder ending

/-- The exit code of the station for each end. -/
def Close.exit : Close → Nat
  | .violation | .readFailed => 1
  | _ => 0

namespace Station

variable {unrepresentable : Unrepresentable} {backend : EngineBackend σ}

theorem serve_append (w : World σ) (frames more : List Frame) :
    serve unrepresentable backend w (frames ++ more) =
      let r := serve unrepresentable backend w frames
      if r.1 then
        let r' := serve unrepresentable backend r.2.1 more
        (r'.1, r'.2.1, r.2.2 ++ r'.2.2)
      else r := by
  induction frames generalizing w with
  | nil => simp [serve]
  | cons frame frames ih =>
    simp only [List.cons_append, serve]
    cases (w.handle unrepresentable backend frame).1 with
    | false => simp
    | true =>
      simp only [if_true, ih]
      split <;> simp

theorem closing_exit (frame : Frame) : (closing frame).exit = 0 := by
  unfold closing
  split
  · rfl
  · split
    · rfl
    · split <;> rfl

theorem closeAt_exit_of_over (handed : List Frame) (decoder : FrameDecoder) (ending : Ending) :
    (closeAt false handed decoder ending).exit = 0 := by
  simp only [closeAt, Bool.false_eq_true, not_false_eq_true, if_true]
  cases handed.getLast? with
  | none => rfl
  | some frame => exact closing_exit frame

theorem closeAt_exit (handed others : List Frame) (open' : Bool) (decoder : FrameDecoder)
    (ending : Ending) :
    (closeAt open' handed decoder ending).exit = (closeAt open' others decoder ending).exit := by
  cases open' with
  | false => rw [closeAt_exit_of_over, closeAt_exit_of_over]
  | true => simp [closeAt]

variable (unrepresentable backend)

/-- The inner loop takes the frames that are buffered, up to the one that ends the session. -/
theorem drain_splits (world : World σ) (handed : List Frame) {buffer rest : Bytes}
    {frames : List Frame} {e : DecodeError} (h : Splits buffer frames rest e) :
    let r := serve unrepresentable backend world frames
    ∃ decoder, drain unrepresentable backend ⟨⟨buffer, .none⟩, world, handed⟩
        = (r.1, ⟨decoder, r.2.1, handed ++ r.2.2⟩) ∧
      decoder.failed = (r.1 && e ≠ .none) ∧ (r.1 = true → decoder = ⟨rest, e⟩) := by
  have hturns : ∀ turns (frames : List Frame) (world : World σ) (handed : List Frame),
      frames.length < turns → (∀ f ∈ frames, f.Fits) →
      let r := serve unrepresentable backend world frames
      ∃ decoder, drainWithin unrepresentable backend turns
          ⟨⟨encodeAll frames ++ rest, .none⟩, world, handed⟩
          = (r.1, ⟨decoder, r.2.1, handed ++ r.2.2⟩) ∧
        decoder.failed = (r.1 && e ≠ .none) ∧ (r.1 = true → decoder = ⟨rest, e⟩) := by
    intro turns frames
    induction frames generalizing turns with
    | nil =>
      intro world handed hlt _
      obtain ⟨turns, rfl⟩ := Nat.exists_eq_succ_of_ne_zero (Nat.ne_of_gt hlt)
      refine ⟨⟨rest, e⟩, ?_, ?_, fun _ => rfl⟩
      · simp [drainWithin, encodeAll, next_end h.ends, serve]
      · simp [serve, FrameDecoder.failed]
    | cons f frames ih =>
      intro world handed hlt hfits
      obtain ⟨turns, rfl⟩ := Nat.exists_eq_succ_of_ne_zero (Nat.ne_of_gt (Nat.zero_lt_of_lt hlt))
      have hnext : FrameDecoder.next ⟨encodeAll (f :: frames) ++ rest, .none⟩
          = (⟨encodeAll frames ++ rest, .none⟩, some f) := by
        have hone := next_encoded (hfits f (by simp)) (encodeAll frames ++ rest)
        rw [← List.append_assoc] at hone
        exact hone
      simp only [drainWithin, hnext, serve]
      split
      · obtain ⟨decoder, hdrain, hfailed, hrest⟩ := ih turns
          (world.handle unrepresentable backend f).2 (handed ++ [f]) (by simpa using hlt)
          (fun g hg => hfits g (by simp [hg]))
        refine ⟨decoder, ?_, hfailed, hrest⟩
        rw [hdrain]
        simp
      · exact ⟨_, rfl, rfl, fun hopen => by cases hopen⟩
  have hlength := length_le_encodeAll frames
  have hdrain := hturns (buffer.length + 1) frames world handed
    (by rw [h.stream_eq, List.length_append]; omega) h.fits
  rw [← h.stream_eq] at hdrain
  exact hdrain

def stream (chunks : List Chunk) : Bytes := chunks.flatMap (·.data)

/-- The outer loop serves the frames of the stream, however its reads cut it. -/
theorem loop_splits (chunks : List Chunk) (ending : Ending) (world : World σ) (handed : List Frame)
    {buffer rest : Bytes} {frames : List Frame} {e : DecodeError} (hshort : Short buffer)
    (h : Splits (buffer ++ stream chunks) frames rest e) :
    let r := serve unrepresentable backend world frames
    ∃ decoder, loop unrepresentable backend chunks ending ⟨⟨buffer, .none⟩, world, handed⟩ =
      (⟨decoder, r.2.1, handed ++ r.2.2⟩, (closeAt r.1 r.2.2 ⟨rest, e⟩ ending).exit) := by
  induction chunks generalizing world handed buffer frames with
  | nil =>
    -- What is left is short of a frame: there is nothing to serve.
    have hone : Splits (buffer ++ stream []) [] buffer .none :=
      ⟨by simp [stream, encodeAll], by simp, .inl ⟨rfl, hshort⟩⟩
    obtain ⟨rfl, rfl, rfl⟩ := h.unique hone
    refine ⟨⟨rest, .none⟩, ?_⟩
    cases ending with
    | closed =>
      by_cases hrest : rest = []
      · simp [loop, serve, closeAt, FrameDecoder.failed, hrest, Close.exit]
      · simp [loop, serve, closeAt, FrameDecoder.failed, hrest, Close.exit]
    | failed => simp [loop, serve, closeAt, FrameDecoder.failed, Close.exit]
  | cons chunk chunks ih =>
    obtain ⟨first, left, e₁, hfirst⟩ := exists_splits (buffer ++ chunk.data)
    obtain ⟨others, rest', e', hothers⟩ := exists_splits (left ++ stream chunks)
    have hfed : FrameDecoder.feed ⟨buffer, .none⟩ chunk.data = ⟨buffer ++ chunk.data, .none⟩ := by
      simp [FrameDecoder.feed, FrameDecoder.failed, chunk.nonempty]
    have hstream : buffer ++ stream (chunk :: chunks)
        = (buffer ++ chunk.data) ++ stream chunks := by simp [stream]
    rw [hstream] at h
    obtain ⟨decoder, hdrain, hfailed, hleft⟩ :=
      drain_splits unrepresentable backend world handed hfirst
    simp only [loop, hfed, hdrain]
    by_cases he : e₁ = .none
    · subst he
      obtain ⟨rfl, rfl, rfl⟩ := h.unique (hfirst.append hothers)
      cases hopen : (serve unrepresentable backend world first).1 with
      | false =>
        -- The session is over within this chunk.
        have hserve : serve unrepresentable backend world (first ++ others)
            = serve unrepresentable backend world first := by
          rw [serve_append]
          simp [hopen]
        rw [hopen] at hfailed
        refine ⟨decoder, ?_⟩
        simp [hserve, hfailed, hopen, closeAt_exit_of_over]
      | true =>
        obtain rfl := hleft hopen
        have hserve := @serve_append σ unrepresentable backend world first others
        simp only [hopen, if_true] at hserve
        obtain ⟨decoder, hloop⟩ := ih (serve unrepresentable backend world first).2.1
          (handed ++ (serve unrepresentable backend world first).2.2) hfirst.short hothers
        refine ⟨decoder, ?_⟩
        simp only [hserve, FrameDecoder.failed, ne_eq, not_true_eq_false, decide_false,
          Bool.false_eq_true, if_false, if_true, hloop, List.append_assoc]
        rw [closeAt_exit]
    · obtain ⟨rfl, rfl, rfl⟩ := h.unique (hfirst.append_refused he (stream chunks))
      cases hopen : (serve unrepresentable backend world frames).1 with
      | false =>
        rw [hopen] at hfailed
        exact ⟨decoder, by simp [hfailed, closeAt_exit_of_over]⟩
      | true =>
        rw [hopen] at hfailed
        have hrefused : decoder.failed = true := by simpa [he] using hfailed
        refine ⟨decoder, ?_⟩
        rw [if_pos hrefused]
        simp [closeAt, FrameDecoder.failed, he, Close.exit]

/-- What the station does is a function of the bytes of the stream. -/
theorem loop_fresh (s : σ) (transcript : Bool) (chunks : List Chunk) (ending : Ending) :
    let w := World.fresh s transcript
    let r := serve unrepresentable backend w (framesOf (stream chunks)).1
    ∃ decoder, loop unrepresentable backend chunks ending (fresh s transcript) =
      (⟨decoder, r.2.1, r.2.2⟩, (course unrepresentable backend w (stream chunks) ending).exit) := by
  obtain ⟨frames, rest, e, hsplits⟩ := exists_splits (stream chunks)
  have hshort : Short [] := .inl (by decide)
  obtain ⟨decoder, hloop⟩ := loop_splits unrepresentable backend chunks ending
    (World.fresh s transcript) [] hshort hsplits
  refine ⟨decoder, ?_⟩
  simp only [course, hsplits.framesOf_eq]
  exact hloop

/-- **The cuts do not matter.** Two ways of cutting one stream into reads, with one end: the session
is given the same frames, makes the same calls on its engine and writes the same replies, the host
receives the same bytes, and the exit code is the same. -/
theorem loop_independent (s : σ) (transcript : Bool) (transport : Transport) (ending : Ending)
    (chunks others : List Chunk) (h : stream others = stream chunks) :
    let r := loop unrepresentable backend chunks ending (fresh s transcript)
    let r' := loop unrepresentable backend others ending (fresh s transcript)
    r'.1.handed = r.1.handed ∧ r'.1.world = r.1.world ∧
      received (transport.writes r'.1.world.replies) = received (transport.writes r.1.world.replies) ∧
      r'.1.world.backendCalls = r.1.world.backendCalls ∧ r'.2 = r.2 := by
  obtain ⟨decoder, hloop⟩ := loop_fresh unrepresentable backend s transcript chunks ending
  obtain ⟨decoder', hloop'⟩ := loop_fresh unrepresentable backend s transcript others ending
  rw [h] at hloop'
  simp only [hloop, hloop']
  simp

/-- A BYE in one read and in two. -/
def byeChunks : List Chunk := [⟨[1, 0, 0, 0, 0x70], by decide, by decide⟩]

def byeInTwo : List Chunk := [⟨[1, 0, 0], by decide, by decide⟩, ⟨[0, 0x70], by decide, by decide⟩]

theorem loop_independent_bye :
    stream byeInTwo = stream byeChunks ∧
      (loop (fun _ => Int64.minValue) nullBackend byeInTwo .closed (fresh () false)).2
        = (loop (fun _ => Int64.minValue) nullBackend byeChunks .closed (fresh () false)).2 := by
  have hstream : stream byeInTwo = stream byeChunks := by decide
  obtain ⟨-, -, -, -, hexit⟩ := loop_independent (fun _ => Int64.minValue) nullBackend () false
    (fun _ => .full) .closed byeChunks byeInTwo hstream
  exact ⟨hstream, hexit⟩

/-! ## What has reached the host -/

theorem serve_world (w : World σ) (frames : List Frame) :
    (serve unrepresentable backend w frames).2.1 =
      Runs.final (World.step unrepresentable backend) w
        (serve unrepresentable backend w frames).2.2 := by
  induction frames generalizing w with
  | nil => rfl
  | cons frame frames ih =>
    simp only [serve]
    split
    · exact ih _
    · rfl

/-- One frame adds a reply at most. -/
theorem step_replies (w : World σ) (frame : Frame) :
    ∃ more, (World.step unrepresentable backend w frame).1.replies = w.replies ++ more ∧
      more.length ≤ 1 := by
  cases hlive : w.session.finished with
  | true =>
    refine ⟨[], ?_, by simp⟩
    rw [World.step, World.handle_finished backend hlive]
    simp
  | false =>
    obtain ⟨⟨calls, reply, ⟨events, hlog, -, hframes⟩, -⟩, -⟩ :=
      @World.handle_obeys _ _ unrepresentable backend hlive frame
    refine ⟨[encodeFrame reply.type reply.payload], ?_, by simp⟩
    unfold World.replies World.step
    rw [hlog, List.filterMap_append, hframes]

end Station

/-- What the host has received is at all times the beginning of the replies: after a reply that was
not delivered in full there is no byte of a later one. -/
structure Aligned (writes : List Write) : Prop where
  at_all_times : ∀ n, received (writes.take n) <+: offered (writes.take n)
  nothing_after : writes.Pairwise fun w later =>
    w.outcome.ok = false → later.outcome.delivered = []

theorem received_prefix {writes : List Write}
    (h : writes.Pairwise fun w later => w.outcome.ok = false → later.outcome.delivered = []) :
    received writes <+: offered writes := by
  induction writes with
  | nil => exact List.prefix_refl _
  | cons w rest ih =>
    obtain ⟨hlater, hrest⟩ := List.pairwise_cons.mp h
    simp only [received, offered, List.flatMap_cons]
    cases hok : w.outcome.ok with
    | true =>
      rw [w.outcome.ok_iff.mp hok]
      exact (List.prefix_append_right_inj _).mpr (ih hrest)
    | false =>
      have hnothing : rest.flatMap (·.outcome.delivered) = [] :=
        List.flatMap_eq_nil_iff.mpr fun later hmem => hlater later hmem hok
      rw [hnothing, List.append_nil]
      exact w.outcome.delivered_le.trans (List.prefix_append ..)

theorem aligned_of_pairwise {writes : List Write}
    (h : writes.Pairwise fun w later => w.outcome.ok = false → later.outcome.delivered = []) :
    Aligned writes :=
  ⟨fun n => received_prefix (h.sublist (List.take_sublist n writes)), h⟩

/-- Only the last write may have failed. -/
theorem aligned_of_last {writes more : List Write} (h : ∀ w ∈ writes, w.outcome.ok = true)
    (hmore : more.length ≤ 1) : Aligned (writes ++ more) := by
  apply aligned_of_pairwise
  refine List.pairwise_append.mpr ⟨?_, ?_, ?_⟩
  · rw [List.pairwise_iff_forall_sublist]
    intro w later hsub hfailed
    have hok := h w (hsub.subset (by simp))
    rw [hfailed] at hok
    cases hok
  · match more, hmore with
    | [], _ => exact List.Pairwise.nil
    | [w], _ => exact List.pairwise_singleton _ w
  · intro w hw later _ hfailed
    rw [h w hw] at hfailed
    cases hfailed

/-- Two transports that do the same up to the first write that fails. -/
def SameUntilFailure (transport other : Transport) (frames : List Bytes) : Prop :=
  ∀ n, (∀ w ∈ (transport.writes frames).take n, w.outcome.ok = true) → other n = transport n

/-- After a write that failed a later one can reach the host. -/
theorem exists_unaligned {transport : Transport} {frames more : List Bytes} {reply : Bytes}
    {write : Write} (hwrite : write ∈ transport.writes frames) (hfailed : write.outcome.ok = false)
    (hreply : reply ≠ []) :
    ∃ other, SameUntilFailure transport other (frames ++ reply :: more) ∧
      ¬ Aligned (other.writes (frames ++ reply :: more)) := by
  obtain ⟨k, hk⟩ := List.mem_iff_getElem?.mp hwrite
  have hframe := hk
  rw [Transport.writes_getElem?] at hframe
  obtain ⟨bytes, hbytes, hwrite_eq⟩ := Option.map_eq_some_iff.mp hframe
  have hlt : k < frames.length := (List.getElem?_eq_some_iff.mp hbytes).1
  have hall : (frames ++ reply :: more)[k]? = some bytes := by
    rw [List.getElem?_append_left hlt, hbytes]
  refine ⟨fun n => if n ≤ k then transport n else Outcome.full, ?_, ?_⟩
  · intro n hok
    rcases Nat.lt_or_ge k n with hkn | hnk
    · have hmem : write ∈ (transport.writes (frames ++ reply :: more)).take n := by
        rw [List.mem_iff_getElem?]
        refine ⟨k, ?_⟩
        rw [List.getElem?_take, if_pos hkn, Transport.writes_getElem?, hall, ← hwrite_eq]
        rfl
      rw [hok write hmem] at hfailed
      cases hfailed
    · exact if_pos hnk
  · intro haligned
    have hpairs := haligned.nothing_after
    rw [Transport.writes_append, List.mapIdx_cons] at hpairs
    have hkept : write ∈ Transport.writes (fun n => if n ≤ k then transport n else Outcome.full)
        frames := by
      rw [List.mem_iff_getElem?]
      refine ⟨k, ?_⟩
      rw [Transport.writes_getElem?, hbytes, ← hwrite_eq]
      simp
    have hlost := (List.pairwise_append.mp hpairs).2.2 write hkept _ List.mem_cons_self hfailed
    rw [Nat.zero_add, if_neg (by omega)] at hlost
    exact hreply hlost

namespace Station

/-- Every frame is handled while no write has failed. -/
def Careful (transport : Transport) (w : World σ) (handed : List Frame) : Prop :=
  ∀ before frame after, handed = before ++ frame :: after →
    ∀ write ∈ transport.writes (Runs.final (World.step unrepresentable backend) w before).replies,
      write.outcome.ok = true

/-- The session is open for every frame that it is given. -/
theorem serve_live {w : World σ} (hlive : w.session.finished = false) (frames : List Frame)
    {before after : List Frame} {frame : Frame}
    (h : (serve unrepresentable backend w frames).2.2 = before ++ frame :: after) :
    (Runs.final (World.step unrepresentable backend) w before).session.finished = false := by
  induction frames generalizing w before with
  | nil => simp [serve] at h
  | cons first frames ih =>
    cases before with
    | nil => exact hlive
    | cons b before =>
      have hopen := (@World.handle_obeys _ _ unrepresentable backend hlive first).finished
      simp only [serve] at h
      split at h
      · rename_i htrue
        rw [htrue] at hopen
        simp only [List.cons_append, List.cons.injEq] at h
        obtain ⟨rfl, h⟩ := h
        have hlive' : (w.handle unrepresentable backend first).2.session.finished = false := by
          simpa using hopen
        exact ih hlive' h
      · simp at h

theorem step_reply {w : World σ} (hlive : w.session.finished = false) (frame : Frame) :
    ∃ reply : Frame, (World.step unrepresentable backend w frame).1.replies =
      w.replies ++ [reply.encoded] := by
  obtain ⟨⟨calls, reply, ⟨events, hlog, -, hframes⟩, -⟩, -⟩ :=
    @World.handle_obeys _ _ unrepresentable backend hlive frame
  refine ⟨reply, ?_⟩
  unfold World.replies World.step
  rw [hlog, List.filterMap_append, hframes]
  rfl

theorem final_replies (w : World σ) (frames : List Frame) :
    w.replies <+: (Runs.final (World.step unrepresentable backend) w frames).replies := by
  induction frames generalizing w with
  | nil => exact List.prefix_refl _
  | cons frame frames ih =>
    obtain ⟨more, hmore, -⟩ := step_replies unrepresentable backend w frame
    exact (hmore ▸ List.prefix_append ..).trans (ih _)

section

variable (s : σ) (transcript : Bool) (transport : Transport) (chunks : List Chunk) (ending : Ending)

theorem loop_handed :
    let r := (loop unrepresentable backend chunks ending (fresh s transcript)).1
    r.world = Runs.final (World.step unrepresentable backend) (World.fresh s transcript) r.handed ∧
      ∀ before frame after, r.handed = before ++ frame :: after →
        (Runs.final (World.step unrepresentable backend) (World.fresh s transcript)
          before).session.finished = false := by
  obtain ⟨decoder, hloop⟩ := loop_fresh unrepresentable backend s transcript chunks ending
  simp only [hloop]
  exact ⟨serve_world unrepresentable backend _ _,
    fun before frame after h => serve_live unrepresentable backend rfl _ h⟩

/-- **The stream after a failed write.** Where every frame is handled while no write has failed, the
host receives the beginning of the replies at all times; and where one is handled after that, there
are later deliveries with which it does not. -/
theorem aligned_of_careful :
    let w : World σ := World.fresh s transcript
    let r : Station σ := (loop unrepresentable backend chunks ending (fresh s transcript)).1
    (Careful unrepresentable backend transport w r.handed →
      Aligned (transport.writes r.world.replies)) ∧
    (¬ Careful unrepresentable backend transport w r.handed →
      ∃ other, SameUntilFailure transport other r.world.replies ∧
        ¬ Aligned (other.writes r.world.replies)) := by
  intro w r
  obtain ⟨hworld, hlive⟩ := loop_handed unrepresentable backend s transcript chunks ending
  refine ⟨?_, ?_⟩
  · intro hcareful
    rcases List.eq_nil_or_concat r.handed with hnil | ⟨earlier, frame, hhanded⟩
    · rw [show r.world = w by rw [hworld, hnil]; rfl]
      exact aligned_of_pairwise List.Pairwise.nil
    · -- The last frame handled is the only one whose reply may be lost.
      rw [List.concat_eq_append] at hhanded
      obtain ⟨more, hmore, hone⟩ := step_replies unrepresentable backend
        (Runs.final (World.step unrepresentable backend) w earlier) frame
      rw [hworld, hhanded, Runs.final_concat, hmore, Transport.writes_append]
      exact aligned_of_last (hcareful earlier frame [] hhanded) (by simpa using hone)
  · intro hcareless
    unfold Careful at hcareless
    push Not at hcareless
    obtain ⟨before, frame, after, hhanded, write, hwrite, hfailed⟩ := hcareless
    obtain ⟨reply, hreply⟩ := step_reply unrepresentable backend (hlive before frame after hhanded)
      frame
    obtain ⟨more, hmore⟩ := final_replies unrepresentable backend
      (World.step unrepresentable backend
        (Runs.final (World.step unrepresentable backend) w before) frame).1 after
    have hreplies : r.world.replies
        = (Runs.final (World.step unrepresentable backend) w before).replies
          ++ reply.encoded :: more := by
      rw [hworld, hhanded, Runs.final_append, Runs.final_cons, ← hmore, hreply, List.append_assoc]
      rfl
    rw [hreplies]
    refine exists_unaligned hwrite (by simpa using hfailed) ?_
    exact List.ne_nil_of_length_pos (encoded_length_pos reply)

end

/-- A HELLO and a BYE in one read. -/
def helloByeChunks : List Chunk :=
  [⟨encodeFrame .hello (ascii "\x7b\"revisions\":[1]\x7d") ++ encodeFrame .bye [],
    by decide +kernel, by decide +kernel⟩]

/-- The first reply is delivered, and one byte of the second. -/
def lastCut : Transport := fun n => if n = 0 then .full else .upTo 1

theorem aligned_of_careful_cut :
    let r := (loop (fun _ => Int64.minValue) nullBackend helloByeChunks .closed (fresh () false)).1
    Careful (fun _ => Int64.minValue) nullBackend lastCut (World.fresh () false) r.handed ∧
      (lastCut.writes r.world.replies).map (·.outcome.ok) = [true, false] ∧
      Aligned (lastCut.writes r.world.replies) := by
  intro r
  have hhanded : r.handed = [⟨.hello, ascii "\x7b\"revisions\":[1]\x7d"⟩, ⟨.bye, []⟩] := by
    decide +kernel
  have hcareful : Careful (fun _ => Int64.minValue) nullBackend lastCut (World.fresh () false)
      r.handed := by
    intro before frame after hsplit
    rw [hhanded] at hsplit
    rcases before with _ | ⟨hello, _ | ⟨bye, rest⟩⟩
    · simp [World.fresh, World.replies]
    · obtain ⟨rfl, -⟩ := List.cons_eq_cons.mp hsplit
      exact List.all_eq_true.mp (by decide +kernel)
    · simp at hsplit
  exact ⟨hcareful, by decide +kernel, (aligned_of_careful _ _ _ _ _ _ _).1 hcareful⟩

/-- One byte of the HELLO_ACK is delivered, and then the BYE. -/
theorem aligned_fails_after_loss :
    ¬ ∀ (transport : Transport) (chunks : List Chunk) (ending : Ending),
      Aligned (transport.writes
        (loop (fun _ => Int64.minValue) nullBackend chunks ending
          (fresh () false)).1.world.replies) := by
  intro h
  let replies := (loop (fun _ => Int64.minValue) nullBackend helloByeChunks .closed
    (fresh () false)).1.world.replies
  have hlength : replies.length = 2 := by decide +kernel
  have hlong : replies.all fun reply => 1 < reply.length := by decide +kernel
  obtain ⟨ack, bye, hreplies⟩ := List.length_eq_two.mp hlength
  rw [hreplies] at hlong
  simp only [List.all_cons, List.all_nil, Bool.and_true, Bool.and_eq_true,
    decide_eq_true_eq] at hlong
  have hlost : (Outcome.upTo 1 ack).ok = false := by
    simp only [Outcome.upTo, decide_eq_false_iff_not, List.take_eq_self_iff]
    omega
  have hwrite : (⟨ack, .upTo 1 ack⟩ : Write) ∈ Transport.writes (fun _ => .upTo 1) [ack] :=
    List.mem_cons_self
  have hbye : bye ≠ [] := by
    rintro rfl
    simp at hlong
  obtain ⟨other, -, hunaligned⟩ := @exists_unaligned _ _ [] bye _ hwrite hlost hbye
  have haligned : Aligned (other.writes replies) := h other helloByeChunks .closed
  rw [hreplies] at haligned
  exact hunaligned haligned

end Station

/-! ## What the exit code says -/

/-- The code is 0 after a session that was ended by a BYE, or by the host between two frames, with
every reply written in full, and 1 after any other. -/
structure Truthful (close : Close) (writes : List Write) (exit : Nat) : Prop where
  zero_iff : exit = 0 ↔ (close = .bye ∨ close = .closed) ∧ ∀ w ∈ writes, w.outcome.ok = true
  one : exit ≠ 0 → exit = 1

/-- Ends of which the loop knows what they were: a refused frame, a failed read, or a clean end after
which no reply is missing. -/
def Known (close : Close) (writes : List Write) : Prop :=
  close = .violation ∨ close = .readFailed ∨
    ((close = .bye ∨ close = .closed) ∧ ∀ w ∈ writes, w.outcome.ok = true)

theorem truthful_iff (close : Close) (writes : List Write) :
    Truthful close writes close.exit ↔ Known close writes := by
  constructor
  · rintro ⟨hzero, -⟩
    unfold Known
    cases close <;> simp_all [Close.exit]
  · intro h
    unfold Known at h
    refine ⟨?_, ?_⟩
    · cases close <;> simp_all [Close.exit]
    · cases close <;> simp [Close.exit]

namespace Station

/-- **What the exit code says.** It is true of every session but those that end in a reply that was
lost, inside a frame, or by the relay for what the peer said before or in its HELLO. -/
theorem exit_truthful_iff (s : σ) (transcript : Bool) (transport : Transport) (chunks : List Chunk)
    (ending : Ending) :
    let close := course unrepresentable backend (World.fresh s transcript) (stream chunks) ending
    let r := loop unrepresentable backend chunks ending (fresh s transcript)
    let writes := transport.writes r.1.world.replies
    (close ≠ .noCommonRevision → Truthful close writes r.2) ↔
      (close ≠ .noCommonRevision → Known close writes) := by
  intro close r writes
  obtain ⟨decoder, hloop⟩ := loop_fresh unrepresentable backend s transcript chunks ending
  have hexit : r.2 = close.exit := congrArg Prod.snd hloop
  rw [hexit, truthful_iff]

/-- The host closes its end inside a frame, and the code is that of a clean end. -/
theorem exit_fails_mid_frame :
    ¬ ∀ (transport : Transport) (chunks : List Chunk) (ending : Ending),
      let close := course (fun _ => Int64.minValue) nullBackend (World.fresh () false)
        (stream chunks) ending
      let r := loop (fun _ => Int64.minValue) nullBackend chunks ending (fresh () false)
      close ≠ .noCommonRevision → Truthful close (transport.writes r.1.world.replies) r.2 := by
  intro h
  have hchunk := h (fun _ => .full) [⟨[1], by decide, by decide⟩] .closed (by decide)
  have hzero := hchunk.zero_iff.mp (by decide)
  exact absurd hzero.1 (by decide)

end Station

end OakBarrels
