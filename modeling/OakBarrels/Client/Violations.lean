import OakBarrels.Client.FrameProofs

/-!
# Malformed streams

Where a stream breaks the format both decoders stop. The client's throws at the chunk that shows it,
and with the exception goes every frame that the same chunk completed.
-/

open Octets Runs OakBarrels.Protocol

namespace OakBarrels.Protocol

/-- The first violation in a stream of chunks shows with this chunk, which ends these frames. -/
structure Reveals (chunks before : List Bytes) (chunk : Bytes) (ended : List Frame) : Prop where
  within : before ++ [chunk] <+: chunks
  split : ∃ fs part rest e, Splits before.flatten fs part .none ∧
    Splits (part ++ chunk) ended rest e ∧ e ≠ .none

/-- What has come in these chunks breaks the format. -/
def Broken (chunks : List Bytes) : Prop :=
  ∃ fs rest e, Splits chunks.flatten fs rest e ∧ e ≠ .none

variable {chunks chunks' before before' : List Bytes} {chunk chunk' : Bytes}
  {ended ended' : List Frame}

theorem Broken.mono (h : Broken chunks) (hbegins : chunks <+: chunks') : Broken chunks' := by
  obtain ⟨fs, rest, e, hsplit, he⟩ := h
  obtain ⟨more, rfl⟩ := hbegins
  refine ⟨fs, rest ++ more.flatten, e, ?_, he⟩
  rw [List.flatten_append]
  exact hsplit.append_refused he more.flatten

theorem Reveals.whole (h : Reveals chunks before chunk ended) :
    Broken (before ++ [chunk]) ∧ ¬ Broken before := by
  obtain ⟨-, fs, part, rest, e, hbefore, hchunk, he⟩ := h
  constructor
  · refine ⟨fs ++ ended, rest, e, ?_, he⟩
    rw [List.flatten_append, List.flatten_singleton]
    exact hbefore.append hchunk
  · rintro ⟨gs, rest', e', hbefore', he'⟩
    exact he' (hbefore.unique hbefore').2.2.symm

/-- There is one such chunk at most, and it ends the same frames. -/
theorem Reveals.unique (h : Reveals chunks before chunk ended)
    (h' : Reveals chunks before' chunk' ended') : ended = ended' := by
  have hsame : before ++ [chunk] = before' ++ [chunk'] := by
    rcases List.prefix_or_prefix_of_prefix h.within h'.within with hbegins | hbegins
    · rcases List.prefix_concat_iff.mp hbegins with heq | hearlier
      · exact heq
      · exact absurd (h.whole.1.mono hearlier) h'.whole.2
    · rcases List.prefix_concat_iff.mp hbegins with heq | hearlier
      · exact heq.symm
      · exact absurd (h'.whole.1.mono hearlier) h.whole.2
  obtain ⟨rfl, hchunk⟩ := List.append_inj' hsame rfl
  obtain rfl : chunk = chunk' := by simpa using hchunk
  obtain ⟨-, fs, part, rest, e, hbefore, hsplit, -⟩ := h
  obtain ⟨-, fs', part', rest', e', hbefore', hsplit', -⟩ := h'
  obtain ⟨-, rfl, -⟩ := hbefore.unique hbefore'
  exact (hsplit.unique hsplit').1

end OakBarrels.Protocol

namespace OakBarrels.Client

variable {c : Convert}

/-! ## The client's decoder -/

/-- The payload is nothing, or UTF-8 text of a JSON object, as `dart:convert` has it. -/
def Readable (c : Convert) (f : Protocol.Frame) : Prop :=
  f.payload = [] ∨ ∃ text m, c.utf8Decode f.payload = some text ∧ c.jsonDecode text = .map m

theorem Readable.reads {f : Protocol.Frame} (h : Readable c f) : ∃ g : Frame c, Reads f g := by
  by_cases hnil : f.payload = []
  · exact ⟨⟨f.type, c.empty⟩, rfl, .inl ⟨hnil, rfl⟩⟩
  · obtain ⟨text, m, htext, hm⟩ := h.resolve_left hnil
    refine ⟨⟨f.type, m⟩, rfl, .inr ⟨hnil, ?_⟩⟩
    unfold decodePayload
    simp only [htext, hm]

theorem exists_readAll {fs : List Protocol.Frame} (h : ∀ f ∈ fs, Readable c f) :
    ∃ gs : List (Frame c), List.Forall₂ Reads fs gs :=
  Pointwise.exists_forall₂.mpr fun f hf => (h f hf).reads

/-- The loop throws at a violation. -/
theorem addLoop_violates {buffer : Bytes} {offset : Nat} (frames : List (Frame c))
    {e : DecodeError} (h : Violates (buffer.drop offset) e) :
    ∃ cause, addLoop buffer offset frames = .error (.protocolViolation cause) := by
  rw [addLoop]
  simp only [show maxControlFrameBytes = 2 ^ 20 from rfl]
  have hannounced : announced (buffer.drop offset) = (readLength (buffer.drop offset)).toNat := rfl
  cases e with
  | none => exact h.elim
  | lengthTooSmall =>
    obtain ⟨h4, h0⟩ := h
    rw [List.length_drop] at h4
    rw [if_neg (by omega), if_pos (by omega)]
    exact ⟨_, rfl⟩
  | frameTooLarge =>
    obtain ⟨h4, hbig⟩ := h
    rw [List.length_drop] at h4
    rw [if_neg (by omega), if_neg (by omega), if_pos (by omega)]
    exact ⟨_, rfl⟩
  | unknownMessageType =>
    obtain ⟨h4, h1, hmax, hlen, raw, hraw, hunknown⟩ := h
    rw [List.length_drop] at h4 hlen
    have htype : (buffer.drop (offset + 4)).headD 0 = raw := by
      rw [List.getElem?_drop] at hraw
      rw [List.headD_eq_head?_getD, List.head?_drop, hraw]
      rfl
    rw [if_neg (by omega), if_neg (by omega), if_neg (by omega), if_neg (by omega)]
    rw [htype, tryFromCode_eq]
    unfold isKnownMessageType at hunknown
    rw [Option.isSome_eq_false_iff, Option.isNone_iff_eq_none] at hunknown
    simp only [hunknown]
    exact ⟨_, rfl⟩

theorem add_dead {buffer chunk rest : Bytes} {fs : List Protocol.Frame} {gs : List (Frame c)}
    {e : DecodeError} (hreads : List.Forall₂ Reads fs gs) (he : e ≠ .none)
    (hsplit : Splits (buffer ++ chunk) fs rest e) :
    ∃ cause, FrameDecoder.add (c := c) ⟨buffer⟩ chunk
      = (⟨buffer ++ chunk⟩, .error (.protocolViolation cause)) := by
  obtain ⟨offset, hloop, hdrop⟩ :=
    addLoop_frames (buffer ++ chunk) hsplit.fits hreads 0 [] hsplit.stream_eq
  have hviolates : Violates rest e := hsplit.ends.resolve_left fun hlive => he hlive.1
  rw [← hdrop] at hviolates
  obtain ⟨cause, hthrow⟩ := addLoop_violates gs hviolates
  refine ⟨cause, ?_⟩
  unfold FrameDecoder.add
  simp only [hloop, List.nil_append, hthrow]

/-! ## Whole runs of it -/

abbrev Output (c : Convert) := Except Thrown (List (Frame c))

/-- What the calls of `add` come to, one for each chunk. -/
def outputsFrom (c : Convert) (d : FrameDecoder) (chunks : List Bytes) : List (Output c) :=
  (trace (FrameDecoder.add (c := c)) d chunks).map Prod.snd

/-- The frames of the calls before the first that throws. -/
def returned : List (Output c) → List (Frame c)
  | [] => []
  | .ok frames :: rest => frames ++ returned rest
  | .error _ :: _ => []

/-- A buffer with a violation in it stays, and every call throws. -/
theorem outputs_dead (chunks : List Bytes) {buffer rest : Bytes} {fs : List Protocol.Frame}
    {gs : List (Frame c)} {e : DecodeError} (hreads : List.Forall₂ Reads fs gs) (he : e ≠ .none)
    (hsplit : Splits buffer fs rest e) :
    ∀ o ∈ outputsFrom c ⟨buffer⟩ chunks, ∃ cause, o = .error (.protocolViolation cause) := by
  induction chunks generalizing buffer rest with
  | nil => simp [outputsFrom, trace]
  | cons chunk more ih =>
    have hmore := hsplit.append_refused he chunk
    obtain ⟨cause, hadd⟩ := add_dead hreads he hmore
    unfold outputsFrom trace
    rw [hadd, List.map_cons, List.forall_mem_cons]
    exact ⟨⟨cause, rfl⟩, ih hmore⟩

/-- How a stream goes that splits into these frames, with these for the client, and this end. -/
inductive Course (c : Convert) (all : List Bytes) (fs : List Protocol.Frame) (gs : List (Frame c))
    (e : DecodeError) : List (Output c) → Prop
  | good (gss : List (List (Frame c))) : e = .none → gss.flatten = gs →
      Course c all fs gs e (gss.map .ok)
  | broken {before : List Bytes} {chunk : Bytes} {kept ended : List Protocol.Frame}
      (gss : List (List (Frame c))) (cause : Violation) (later : List (Output c)) :
      e ≠ .none → Reveals all before chunk ended → fs = kept ++ ended →
      List.Forall₂ Reads kept gss.flatten →
      (∀ o ∈ later, ∃ cause, o = .error (.protocolViolation cause)) →
      Course c all fs gs e (gss.map .ok ++ .error (.protocolViolation cause) :: later)

/-- A chunk before that adds its frames. -/
theorem Course.cons {all : List Bytes} {hs fs : List Protocol.Frame} {gs₁ gs₂ : List (Frame c)}
    {e : DecodeError} {outputs : List (Output c)} (hreads : List.Forall₂ Reads hs gs₁)
    (h : Course c all fs gs₂ e outputs) :
    Course c all (hs ++ fs) (gs₁ ++ gs₂) e (.ok gs₁ :: outputs) := by
  cases h with
  | good gss hnone hflat =>
    refine .good (gs₁ :: gss) hnone ?_
    rw [List.flatten_cons, hflat]
  | @broken _ _ kept _ gss cause later he hreveals hfs hkept hlater =>
    have hkept' : List.Forall₂ Reads (hs ++ kept) (gs₁ :: gss).flatten := by
      rw [List.flatten_cons]
      exact List.rel_append hreads hkept
    refine .broken (gs₁ :: gss) cause later he hreveals ?_ hkept' hlater
    rw [hfs, List.append_assoc]

theorem outputs_course (chunks : List Bytes) {seen all : List Bytes} {buffer rest : Bytes}
    {fs₀ fs : List Protocol.Frame} {gs : List (Frame c)} {e : DecodeError}
    (hall : all = seen ++ chunks) (hseen : Splits seen.flatten fs₀ buffer .none)
    (hreads : List.Forall₂ Reads fs gs) (hstream : Splits (buffer ++ chunks.flatten) fs rest e) :
    Course c all fs gs e (outputsFrom c ⟨buffer⟩ chunks) := by
  induction chunks generalizing seen buffer fs₀ fs gs with
  | nil =>
    rw [List.flatten_nil, List.append_nil] at hstream
    have hnothing : Splits buffer [] buffer .none := ⟨rfl, by simp, .inl ⟨rfl, hseen.short⟩⟩
    obtain ⟨rfl, -, rfl⟩ := hnothing.unique hstream
    cases hreads
    exact .good [] rfl rfl
  | cons chunk more ih =>
    rw [List.flatten_cons, ← List.append_assoc] at hstream
    obtain ⟨hs, part, e', hsplit⟩ := exists_splits (buffer ++ chunk)
    obtain ⟨fs', rest', e'', hmore⟩ := exists_splits (part ++ more.flatten)
    obtain ⟨rfl, rfl, rfl⟩ := (hsplit.append hmore).unique hstream
    have hreads₁ := List.forall₂_take hs.length hreads
    have hreads₂ := List.forall₂_drop hs.length hreads
    rw [List.take_left] at hreads₁
    rw [List.drop_left] at hreads₂
    rw [← List.take_append_drop hs.length gs]
    unfold outputsFrom trace
    by_cases he : e' = .none
    · subst he
      rw [add_live hreads₁ hsplit]
      have hseen' : Splits (seen ++ [chunk]).flatten (fs₀ ++ hs) part .none := by
        rw [List.flatten_append, List.flatten_singleton]
        exact hseen.append hsplit
      have hall' : all = (seen ++ [chunk]) ++ more := by rw [hall, List.append_assoc]; rfl
      exact (ih hall' hseen' hreads₂ hmore).cons hreads₁
    · -- The rest of the stream begins with the violation: no frame comes after it.
      obtain ⟨hnone, -, rfl⟩ := (hsplit.append_refused he more.flatten).unique hstream
      obtain rfl : fs' = [] := List.append_right_eq_self.mp hnone.symm
      obtain ⟨cause, hadd⟩ := add_dead hreads₁ he hsplit
      rw [hadd]
      have hreveals : Reveals all seen chunk hs :=
        ⟨⟨more, by simp [hall]⟩, fs₀, buffer, part, e', hseen, hsplit, he⟩
      exact .broken [] cause _ he hreveals (by simp) .nil (outputs_dead more hreads₁ he hsplit)

/-! ## Both decoders -/

/-- The two decoders on one stream: the client's over its chunks, the station's in a run that takes
all it can. -/
structure Agree (c : Convert) (chunks : List Bytes) (ops : List Protocol.FrameDecoder.Op) :
    Prop where
  frames : List.Forall₂ Reads (Protocol.FrameDecoder.frames ops)
    (returned (outputsFrom c ⟨[]⟩ chunks))
  throws : (∃ cause, .error (.protocolViolation cause) ∈ outputsFrom c ⟨[]⟩ chunks) ↔
    (Protocol.FrameDecoder.after ops).failed = true
  stays : (outputsFrom c ⟨[]⟩ chunks).Pairwise fun o o' =>
    (∃ thrown, o = .error thrown) → ∃ thrown, o' = .error thrown

theorem returned_append (gss : List (List (Frame c))) (rest : List (Output c)) :
    returned (gss.map .ok ++ rest) = gss.flatten ++ returned rest := by
  induction gss with
  | nil => rfl
  | cons gs gss ih =>
    rw [List.map_cons, List.cons_append, returned, ih, List.flatten_cons, List.append_assoc]

theorem ok_pairwise (gss : List (List (Frame c))) : (gss.map Except.ok).Pairwise
    fun (o o' : Output c) => (∃ thrown, o = .error thrown) → ∃ thrown, o' = .error thrown := by
  refine List.pairwise_of_forall_mem_list ?_
  rintro o ho o' - ⟨thrown, rfl⟩
  obtain ⟨gs, -, hgs⟩ := List.mem_map.mp ho
  cases hgs

section

variable {all : List Bytes} {fs : List Protocol.Frame} {gs : List (Frame c)} {e : DecodeError}
  {outputs : List (Output c)}

theorem Course.throws (h : Course c all fs gs e outputs) :
    (∃ cause, .error (.protocolViolation cause) ∈ outputs) ↔ e ≠ .none := by
  cases h with
  | good gss hnone _ =>
    refine iff_of_false ?_ (not_not.mpr hnone)
    rintro ⟨cause, hmem⟩
    obtain ⟨gs, -, hgs⟩ := List.mem_map.mp hmem
    cases hgs
  | broken gss cause later he _ _ _ _ => exact iff_of_true ⟨cause, by simp⟩ he

theorem Course.stays (h : Course c all fs gs e outputs) : outputs.Pairwise fun o o' =>
    (∃ thrown, o = .error thrown) → ∃ thrown, o' = .error thrown := by
  cases h with
  | good gss _ _ => exact ok_pairwise gss
  | broken gss cause later _ _ _ _ hlater =>
    have herrors : ∀ o ∈ .error (.protocolViolation cause) :: later,
        ∃ thrown, o = Except.error thrown := by
      intro o ho
      rcases List.mem_cons.mp ho with rfl | ho
      · exact ⟨_, rfl⟩
      · obtain ⟨cause', rfl⟩ := hlater o ho
        exact ⟨_, rfl⟩
    refine List.pairwise_append.mpr ⟨ok_pairwise gss, ?_, fun _ _ o' ho' _ => herrors o' ho'⟩
    exact List.pairwise_of_forall_mem_list fun _ _ o' ho' _ => herrors o' ho'

/-- The client returns every frame unless the chunk that throws ends one. -/
theorem Course.frames (h : Course c all fs gs e outputs) (hreads : List.Forall₂ Reads fs gs)
    (hbroken : ∀ before chunk ended, Reveals all before chunk ended → e ≠ .none) :
    List.Forall₂ Reads fs (returned outputs) ↔
      ∀ before chunk ended, Reveals all before chunk ended → ended = [] := by
  cases h with
  | good gss hnone hflat =>
    have hreturned : returned (gss.map Except.ok) = gs := by
      rw [← hflat, ← List.append_nil (gss.map _), returned_append, returned, List.append_nil]
    rw [hreturned]
    exact iff_of_true hreads fun before chunk ended h => absurd hnone (hbroken before chunk ended h)
  | @broken before chunk kept ended gss cause later he hreveals hfs hkept hlater =>
    rw [returned_append, returned, List.append_nil, hfs]
    constructor
    · intro hall before' chunk' ended' hreveals'
      have hlength := hall.length_eq
      rw [List.length_append, ← hkept.length_eq] at hlength
      rw [hreveals'.unique hreveals]
      exact List.length_eq_zero_iff.mp (by omega)
    · intro hnothing
      rw [hnothing before chunk ended hreveals, List.append_nil]
      exact hkept

end

/-- **The decoders on malformed streams.** Over any chunks of a stream whose frames the client can
read: it throws where the station fails, and goes on throwing; and it returns what the station does
exactly if the chunk with which the first violation shows ends no frame. -/
theorem decoders_agree_iff (c : Convert) (chunks : List Bytes)
    (ops : List Protocol.FrameDecoder.Op)
    (hfed : Protocol.FrameDecoder.fed ops = chunks.flatten)
    (hdrained : Protocol.FrameDecoder.Drained ops)
    (hreadable : ∀ f ∈ Protocol.FrameDecoder.frames ops, Readable c f) :
    Agree c chunks ops ↔ ∀ before chunk ended, Reveals chunks before chunk ended → ended = [] := by
  obtain ⟨rest, hstream⟩ := Protocol.FrameDecoder.drained_splits hdrained
  rw [hfed] at hstream
  obtain ⟨gs, hgs⟩ := exists_readAll hreadable
  have hnone : ∀ f ∈ ([] : List Protocol.Frame), f.Fits := by simp
  have hstart : Splits [] [] [] .none := splits_encodeAll hnone
  have hcourse := outputs_course chunks (List.nil_append chunks).symm hstart hgs hstream
  have hfailed : (Protocol.FrameDecoder.after ops).failed = true ↔
      (Protocol.FrameDecoder.after ops).error ≠ .none := by
    simp [Protocol.FrameDecoder.failed]
  have hbroken : ∀ before chunk ended, Reveals chunks before chunk ended →
      (Protocol.FrameDecoder.after ops).error ≠ .none := by
    intro before chunk ended hreveals
    obtain ⟨fs, rest', e, hsplit, he⟩ := hreveals.whole.1.mono hreveals.within
    obtain ⟨-, -, rfl⟩ := hsplit.unique hstream
    exact he
  rw [← hcourse.frames hgs hbroken]
  exact ⟨Agree.frames, fun hframes => ⟨hframes, hcourse.throws.trans hfailed.symm, hcourse.stays⟩⟩

/-- A BYE, and a length of zero after it. -/
def goodbye : Bytes := [1, 0, 0, 0, 0x70]

def zeroLength : Bytes := [0, 0, 0, 0]

def taken : List Protocol.FrameDecoder.Op := [.feed (goodbye ++ zeroLength), .next, .next]

theorem taken_frames : Protocol.FrameDecoder.frames taken = [⟨.bye, []⟩] := by decide +kernel

theorem taken_drained : Protocol.FrameDecoder.Drained taken :=
  ⟨[.feed (goodbye ++ zeroLength), .next], rfl, by decide +kernel⟩

theorem taken_readable (c : Convert) :
    ∀ f ∈ Protocol.FrameDecoder.frames taken, Readable c f := by
  rw [taken_frames, List.forall_mem_singleton]
  exact .inl rfl

theorem goodbye_splits : Splits goodbye [⟨.bye, []⟩] [] .none := by
  have hfits : ∀ f ∈ [(⟨.bye, []⟩ : Protocol.Frame)], f.Fits := by simp [Protocol.Frame.Fits]
  exact splits_encodeAll hfits

theorem zeroLength_splits : Splits zeroLength [] zeroLength .lengthTooSmall :=
  ⟨rfl, by simp, .inr ⟨by decide, by decide⟩⟩

/-- In chunks of their own the BYE comes out before the throw. -/
theorem decoders_agree_iff_apart : Agree asciiConvert [goodbye, zeroLength] taken := by
  have hreveals : Reveals [goodbye, zeroLength] [goodbye] zeroLength [] := by
    exact ⟨⟨[], rfl⟩, [⟨.bye, []⟩], [], zeroLength, .lengthTooSmall, goodbye_splits,
      zeroLength_splits, by decide⟩
  refine (decoders_agree_iff asciiConvert [goodbye, zeroLength] taken rfl taken_drained
    (taken_readable _)).mpr ?_
  intro before chunk ended h
  exact h.unique hreveals

/-- In one chunk it is lost. -/
theorem decoders_disagree_in_one_chunk :
    ¬ ∀ (c : Convert) (chunks : List Bytes) (ops : List Protocol.FrameDecoder.Op),
      Protocol.FrameDecoder.fed ops = chunks.flatten → Protocol.FrameDecoder.Drained ops →
      (∀ f ∈ Protocol.FrameDecoder.frames ops, Readable c f) → Agree c chunks ops := by
  intro h
  have hframes := (h asciiConvert [goodbye ++ zeroLength] taken rfl taken_drained
    (taken_readable _)).frames
  have hreads : List.Forall₂ Reads [⟨.bye, []⟩] [(⟨.bye, []⟩ : Frame asciiConvert)] :=
    .cons ⟨rfl, .inl ⟨rfl, rfl⟩⟩ .nil
  have hsplit : Splits ([] ++ (goodbye ++ zeroLength)) [⟨.bye, []⟩] zeroLength .lengthTooSmall :=
    goodbye_splits.append zeroLength_splits
  obtain ⟨cause, hadd⟩ := add_dead hreads (by decide) hsplit
  have hreturned : returned (outputsFrom asciiConvert ⟨[]⟩ [goodbye ++ zeroLength]) = [] := by
    unfold outputsFrom trace
    rw [hadd]
    rfl
  rw [taken_frames, hreturned] at hframes
  cases hframes

end OakBarrels.Client
