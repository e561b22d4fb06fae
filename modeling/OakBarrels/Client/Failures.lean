import OakBarrels.Client.Pairing
import OakBarrels.Client.Violations

/-!
# How the client fails

What the bytes of a stream make the client throw, and what becomes of its requests. A violation of
the format is caught and kept; the exception for a payload that is not UTF-8 is another one, which
nothing catches.
-/

open Octets Runs OakBarrels.Protocol

namespace OakBarrels.Client

variable {c : Convert}

/-! ## Streams that cannot be read -/

/-- A frame of the stream cannot be read, or it ends in a violation of the framing. -/
def Malformed (c : Convert) (stream : Bytes) : Prop :=
  ∃ fs rest e, Splits stream fs rest e ∧ (e ≠ .none ∨ ∃ f ∈ fs, ¬ Readable c f)

/-- The payload is something, and not UTF-8. -/
def Garbled (c : Convert) (f : Protocol.Frame) : Prop :=
  f.payload ≠ [] ∧ c.utf8Decode f.payload = none

/-- The first thing in the stream that cannot be read is a frame whose payload is not UTF-8. -/
def NotText (c : Convert) (stream : Bytes) : Prop :=
  ∃ good f more rest e, Splits stream (good ++ f :: more) rest e ∧ (∀ g ∈ good, Readable c g) ∧
    Garbled c f

theorem Garbled.not_readable {f : Protocol.Frame} (h : Garbled c f) : ¬ Readable c f := by
  rintro (hnil | ⟨text, m, htext, -⟩)
  · exact h.1 hnil
  · rw [h.2] at htext
    cases htext

theorem NotText.malformed {stream : Bytes} (h : NotText c stream) : Malformed c stream := by
  obtain ⟨good, f, more, rest, e, hsplit, -, hf⟩ := h
  exact ⟨_, rest, e, hsplit, .inr ⟨f, by simp, hf.not_readable⟩⟩

theorem exists_splits_append {stream rest : Bytes} {fs : List Protocol.Frame} {e : DecodeError}
    (h : Splits stream fs rest e) (more : Bytes) :
    ∃ gs rest' e', Splits (stream ++ more) (fs ++ gs) rest' e' ∧ (e ≠ .none → e' = e) := by
  by_cases he : e = .none
  · obtain ⟨gs, rest', e', hmore⟩ := exists_splits (rest ++ more)
    exact ⟨gs, rest', e', h.append hmore, fun hne => absurd he hne⟩
  · refine ⟨[], rest ++ more, e, ?_, fun _ => rfl⟩
    rw [List.append_nil]
    exact h.append_refused he more

theorem Malformed.append {stream : Bytes} (h : Malformed c stream) (more : Bytes) :
    Malformed c (stream ++ more) := by
  obtain ⟨fs, rest, e, hsplit, hbad⟩ := h
  obtain ⟨gs, rest', e', hmore, he⟩ := exists_splits_append hsplit more
  refine ⟨_, rest', e', hmore, ?_⟩
  rcases hbad with hne | ⟨f, hf, hunreadable⟩
  · rw [he hne]
    exact .inl hne
  · exact .inr ⟨f, List.mem_append_left _ hf, hunreadable⟩

theorem NotText.append {stream : Bytes} (h : NotText c stream) (more : Bytes) :
    NotText c (stream ++ more) := by
  obtain ⟨good, f, after, rest, e, hsplit, hgood, hf⟩ := h
  obtain ⟨gs, rest', e', hmore, -⟩ := exists_splits_append hsplit more
  refine ⟨good, f, after ++ gs, rest', e', ?_, hgood, hf⟩
  simpa using hmore

theorem not_malformed_nil : ¬ Malformed c [] := by
  have hnone : ∀ f ∈ ([] : List Protocol.Frame), f.Fits := by simp
  rintro ⟨fs, rest, e, hsplit, hbad⟩
  obtain ⟨rfl, -, rfl⟩ := (splits_encodeAll hnone).unique hsplit
  simp at hbad

section

variable {fs : List Protocol.Frame} {stream rest : Bytes} {e : DecodeError}
  (hfits : ∀ f ∈ fs, f.Fits)

include hfits

theorem Splits.behind {gs : List Protocol.Frame} (h : Splits stream gs rest e) :
    Splits (encodeAll fs ++ stream) (fs ++ gs) rest e :=
  (splits_encodeAll hfits).append (by simpa using h)

/-- Frames that can be read make no difference before a stream. -/
theorem malformed_behind (hreadable : ∀ f ∈ fs, Readable c f) :
    Malformed c (encodeAll fs ++ stream) ↔ Malformed c stream := by
  obtain ⟨gs, rest, e, hsplit⟩ := exists_splits stream
  constructor
  · rintro ⟨fs', rest', e', hsplit', hbad⟩
    obtain ⟨rfl, rfl, rfl⟩ := (Splits.behind hfits hsplit).unique hsplit'
    refine ⟨gs, rest, e, hsplit, hbad.imp_right ?_⟩
    rintro ⟨f, hf, hunreadable⟩
    rcases List.mem_append.mp hf with hf | hf
    · exact absurd (hreadable f hf) hunreadable
    · exact ⟨f, hf, hunreadable⟩
  · rintro ⟨gs', rest', e', hsplit', hbad⟩
    refine ⟨fs ++ gs', rest', e', Splits.behind hfits hsplit', hbad.imp_right ?_⟩
    rintro ⟨f, hf, hunreadable⟩
    exact ⟨f, List.mem_append_right _ hf, hunreadable⟩

theorem notText_behind (hreadable : ∀ f ∈ fs, Readable c f) :
    NotText c (encodeAll fs ++ stream) ↔ NotText c stream := by
  obtain ⟨gs, rest, e, hsplit⟩ := exists_splits stream
  constructor
  · rintro ⟨good, f, more, rest', e', hsplit', hgood, hf⟩
    obtain ⟨hframes, rfl, rfl⟩ := (Splits.behind hfits hsplit).unique hsplit'
    have hnot : f ∉ fs := fun hmem => hf.not_readable (hreadable f hmem)
    rcases List.append_eq_append_iff.mp hframes with ⟨good', rfl, rfl⟩ | ⟨left, rfl, hleft⟩
    · exact ⟨good', f, more, rest, e, hsplit, fun g hg => hgood g (List.mem_append_right _ hg), hf⟩
    · cases left with
      | nil => exact ⟨[], f, more, rest, e, by simpa [hleft] using hsplit, by simp, hf⟩
      | cons g left =>
        obtain rfl := (List.cons.inj hleft).1
        simp at hnot
  · rintro ⟨good, f, more, rest', e', hsplit', hgood, hf⟩
    refine ⟨fs ++ good, f, more, rest', e', ?_, ?_, hf⟩
    · rw [List.append_assoc]
      exact Splits.behind hfits hsplit'
    · intro g hg
      rcases List.mem_append.mp hg with hg | hg
      · exact hreadable g hg
      · exact hgood g hg

end

/-! ## What the decoder throws -/

theorem decodePayload_unreadable {f : Protocol.Frame} (h : ¬ Readable c f) :
    f.payload ≠ [] ∧ (Garbled c f ∧ decodePayload (c := c) f.payload = .error .formatException ∨
      ¬ Garbled c f ∧ ∃ cause, decodePayload (c := c) f.payload
        = .error (.protocolViolation cause)) := by
  unfold Readable at h
  rw [not_or] at h
  refine ⟨h.1, ?_⟩
  unfold decodePayload
  cases htext : c.utf8Decode f.payload with
  | none => exact .inl ⟨⟨h.1, htext⟩, rfl⟩
  | some text =>
    have hnot : ¬ Garbled c f := by
      rintro ⟨-, hnone⟩
      rw [htext] at hnone
      cases hnone
    refine .inr ⟨hnot, ?_⟩
    cases hjson : c.jsonDecode text with
    | malformed => exact ⟨.payloadMalformed, by simp only [hjson]⟩
    | notMap => exact ⟨.payloadNotMap, by simp only [hjson]⟩
    | map m => exact absurd ⟨text, m, htext, hjson⟩ h.2

theorem exists_first_unreadable {fs : List Protocol.Frame} (h : ∃ f ∈ fs, ¬ Readable c f) :
    ∃ good f more, fs = good ++ f :: more ∧ (∀ g ∈ good, Readable c g) ∧ ¬ Readable c f := by
  induction fs with
  | nil => simp at h
  | cons g rest ih =>
    by_cases hg : Readable c g
    · obtain ⟨f, hf, hunreadable⟩ := h
      have hrest : f ∈ rest := by
        rcases List.mem_cons.mp hf with rfl | hf
        · exact absurd hg hunreadable
        · exact hf
      obtain ⟨good, f', more, rfl, hgood, hf'⟩ := ih ⟨f, hrest, hunreadable⟩
      exact ⟨g :: good, f', more, rfl, List.forall_mem_cons.mpr ⟨hg, hgood⟩, hf'⟩
    · exact ⟨[], g, rest, rfl, by simp, hg⟩

section

variable {buffer chunk rest : Bytes} {good more : List Protocol.Frame} {f : Protocol.Frame}
  {e : DecodeError}

/-- At the first frame that cannot be read `add` throws, and keeps all bytes. -/
theorem add_unreadable {thrown : Thrown}
    (hsplit : Splits (buffer ++ chunk) (good ++ f :: more) rest e)
    (hgood : ∀ g ∈ good, Readable c g) (hne : f.payload ≠ [])
    (hthrows : decodePayload (c := c) f.payload = .error thrown) :
    FrameDecoder.add (c := c) ⟨buffer⟩ chunk = (⟨buffer ++ chunk⟩, .error thrown) := by
  obtain ⟨gs, hreads⟩ := exists_readAll hgood
  have hfits := hsplit.fits
  have hstream : buffer ++ chunk = encodeAll good ++ (f.encoded ++ (encodeAll more ++ rest)) := by
    rw [hsplit.stream_eq]
    simp [encodeAll]
  obtain ⟨offset, hloop, hdrop⟩ := addLoop_frames (buffer ++ chunk)
    (fun g hg => hfits g (List.mem_append_left _ hg)) hreads 0 [] hstream
  have hf : f.Fits := hfits f (by simp)
  unfold FrameDecoder.add
  simp only [hloop, addLoop_encoded _ hf hdrop, if_neg hne, hthrows]

theorem add_notText (h : NotText c (buffer ++ chunk)) :
    FrameDecoder.add (c := c) ⟨buffer⟩ chunk
      = (⟨buffer ++ chunk⟩, .error .formatException) := by
  obtain ⟨good, f, more, rest, e, hsplit, hgood, hf⟩ := h
  refine add_unreadable hsplit hgood hf.1 ?_
  unfold decodePayload
  rw [hf.2]

theorem add_malformed (h : Malformed c (buffer ++ chunk)) (htext : ¬ NotText c (buffer ++ chunk)) :
    ∃ cause, FrameDecoder.add (c := c) ⟨buffer⟩ chunk
      = (⟨buffer ++ chunk⟩, .error (.protocolViolation cause)) := by
  obtain ⟨fs, rest, e, hsplit, hbad⟩ := h
  by_cases hunreadable : ∃ f ∈ fs, ¬ Readable c f
  · obtain ⟨good, f, more, rfl, hgood, hf⟩ := exists_first_unreadable hunreadable
    obtain ⟨hne, ⟨hgarbled, -⟩ | ⟨-, cause, hthrows⟩⟩ := decodePayload_unreadable hf
    · exact absurd ⟨good, f, more, rest, e, hsplit, hgood, hgarbled⟩ htext
    · exact ⟨cause, add_unreadable hsplit hgood hne hthrows⟩
  · have he : e ≠ .none := hbad.resolve_right hunreadable
    simp only [not_exists, not_and, not_not] at hunreadable
    obtain ⟨gs, hreads⟩ := exists_readAll hunreadable
    exact add_dead hreads he hsplit

theorem add_wellFormed (h : ¬ Malformed c (buffer ++ chunk)) :
    ∃ fs gs rest, Splits (buffer ++ chunk) fs rest .none ∧ (∀ f ∈ fs, Readable c f) ∧
      FrameDecoder.add (c := c) ⟨buffer⟩ chunk = (⟨rest⟩, .ok gs) := by
  obtain ⟨fs, rest, e, hsplit⟩ := exists_splits (buffer ++ chunk)
  obtain rfl : e = .none := by
    by_contra he
    exact h ⟨fs, rest, e, hsplit, .inl he⟩
  have hreadable : ∀ f ∈ fs, Readable c f := by
    intro f hf
    by_contra hbad
    exact h ⟨fs, rest, .none, hsplit, .inr ⟨f, hf, hbad⟩⟩
  obtain ⟨gs, hreads⟩ := exists_readAll hreadable
  exact ⟨fs, gs, rest, hsplit, hreadable, add_live hreads hsplit⟩

end

/-! ## The client -/

/-- What `_request` throws before it waits for a response. -/
inductive Refusal
  | failure (failure : Failure)
  | notReadable
  | tooLarge

inductive Input (c : Convert)
  | bytes (chunk : Bytes)
  | request (call : Call) (frame : Frame c) (isPaused : Bool)
  | timeout
  | fail (failure : Failure)

def Input.chunk? : Input c → Option Bytes
  | .bytes chunk => some chunk
  | _ => none

namespace Relay

def refusal (r : Relay c) (frame : Frame c) (isPaused : Bool) : Option Refusal :=
  match r.failure with
  | some failure => some (.failure failure)
  | none =>
    if isPaused then some .notReadable
    else if frame.encode.isNone then some .tooLarge
    else none

/-- What leaves `_onBytes`: it catches a violation of the protocol and nothing else. -/
def onBytesThrows (r : Relay c) (chunk : Bytes) : Option Thrown :=
  match (r.decoder.add (c := c) chunk).2 with
  | .error (.protocolViolation _) => none
  | .error thrown => some thrown
  | .ok _ => none

variable (fields : Fields c)

def input (r : Relay c) : Input c → Relay c
  | .bytes chunk => r.onBytes fields chunk
  | .request call frame isPaused => (r.request fields call frame isPaused).1
  | .timeout => r.onTimeout
  | .fail failure => r.fail failure

/-- A request that throws at once is not sent, and only such a one is not. -/
theorem request_refusal (r : Relay c) (call : Call) (frame : Frame c) (isPaused : Bool) :
    ((r.request fields call frame isPaused).2 = none ↔ (r.refusal frame isPaused).isSome = true) ∧
      ((r.refusal frame isPaused).isSome = true →
        r.request fields call frame isPaused = (r, none)) := by
  unfold request refusal
  cases hfailure : r.failure with
  | some failure => simp
  | none =>
    cases isPaused with
    | true => simp
    | false =>
      cases hencode : frame.encode with
      | none => simp
      | some bytes =>
        simp only [Option.isSome_none, Bool.false_eq_true, if_false, Option.isNone_some]
        split <;> simp

/-! ### What is kept -/

variable {fields}

theorem deliver_failure (r : Relay c) (frame : Frame c) :
    (r.deliver fields frame).failure = r.failure := by
  unfold deliver
  simp only
  split <;> rfl

theorem delivers_failure (frames : List (Frame c)) (r : Relay c) :
    (frames.foldl (deliver fields) r).failure = r.failure :=
  Runs.foldl_keeps deliver_failure frames r

theorem request_failure (r : Relay c) (call : Call) (frame : Frame c) (isPaused : Bool) :
    (r.request fields call frame isPaused).1.failure = r.failure := by
  unfold request
  split
  · rfl
  · split
    · rfl
    · split
      · rfl
      · simp only
        split <;> rfl

theorem onTimeout_failure (r : Relay c) : r.onTimeout.failure = r.failure := by
  unfold onTimeout
  split <;> rfl

theorem fail_failed {r : Relay c} {failure : Failure} (h : r.failure = some failure)
    (other : Failure) : (r.fail other).failure = some failure := by
  unfold fail
  rw [h]
  exact h

/-- The first failure of a client stays its failure. -/
theorem failure_stays {r : Relay c} {failure : Failure} (h : r.failure = some failure)
    (i : Input c) : (r.input fields i).failure = some failure := by
  cases i with
  | bytes chunk =>
    change (r.onBytes fields chunk).failure = some failure
    unfold onBytes
    split
    · apply fail_failed
      exact h
    · exact h
    · rw [delivers_failure]
      exact h
  | request call frame isPaused => exact (request_failure r call frame isPaused).trans h
  | timeout => exact (onTimeout_failure r).trans h
  | fail other => exact fail_failed h other

theorem fail_unfailed {r : Relay c} (h : r.failure = none) (failure : Failure) :
    (r.fail failure).failure = some failure ∧ ∀ call, r.waiter = some call →
      (r.fail failure).waiter = none ∧
        (r.fail failure).outcomes = r.outcomes ++ [.failed failure] := by
  unfold fail
  rw [h]
  simp only
  constructor
  · split <;> rfl
  · intro call hcall
    rw [hcall]
    exact ⟨rfl, rfl⟩

end Relay

/-! ## Runs of it -/

/-- The client once this has happened to it. -/
def after (fields : Fields c) (inputs : List (Input c)) : Relay c :=
  inputs.foldl (Relay.input fields) (.attached c)

def arrived (inputs : List (Input c)) : Bytes := (inputs.filterMap Input.chunk?).flatten

section

variable {fields : Fields c}

theorem after_concat (inputs : List (Input c)) (i : Input c) :
    after fields (inputs ++ [i]) = (after fields inputs).input fields i := by
  unfold after
  rw [List.foldl_append]
  rfl

theorem arrived_append (inputs more : List (Input c)) :
    arrived (inputs ++ more) = arrived inputs ++ arrived more := by
  unfold arrived
  rw [List.filterMap_append, List.flatten_append]

theorem arrived_bytes (chunk : Bytes) : arrived [(.bytes chunk : Input c)] = chunk := by
  simp [arrived, Input.chunk?]

theorem arrived_other {i : Input c} (h : i.chunk? = none) : arrived [i] = [] := by
  simp [arrived, h]

/-- What has come is frames that can be read, and what the decoder holds. -/
def Kept (fields : Fields c) (inputs : List (Input c)) : Prop :=
  ∃ fs, (∀ f ∈ fs, f.Fits) ∧ (∀ f ∈ fs, Readable c f) ∧
    arrived inputs = encodeAll fs ++ (after fields inputs).decoder.buffer

theorem Kept.bytes {inputs : List (Input c)} (h : Kept fields inputs) (chunk : Bytes) :
    Kept fields (inputs ++ [.bytes chunk]) := by
  obtain ⟨fs, hfits, hreadable, harrived⟩ := h
  unfold Kept
  rw [after_concat, arrived_append, arrived_bytes, harrived]
  generalize after fields inputs = r
  change ∃ fs, _ ∧ _ ∧ _ = encodeAll fs ++ (r.onBytes fields chunk).decoder.buffer
  obtain ⟨⟨buffer⟩, queued, waiter, failure, revision, count, sent, outcomes⟩ := r
  unfold Relay.onBytes
  by_cases hmalformed : Malformed c (buffer ++ chunk)
  · refine ⟨fs, hfits, hreadable, ?_⟩
    by_cases htext : NotText c (buffer ++ chunk)
    · rw [add_notText htext, List.append_assoc]
    · obtain ⟨cause, hadd⟩ := add_malformed hmalformed htext
      rw [hadd]
      simp only [(System.fail_decoder _ _).1, List.append_assoc]
  · obtain ⟨gs, frames, rest, hsplit, hgood, hadd⟩ := add_wellFormed hmalformed
    refine ⟨fs ++ gs, ?_, ?_, ?_⟩
    · exact List.forall_mem_append.mpr ⟨hfits, hsplit.fits⟩
    · exact List.forall_mem_append.mpr ⟨hreadable, hgood⟩
    · rw [hadd]
      simp only [System.foldl_deliver_decoder]
      rw [FrameDecoder.encodeAll_append, List.append_assoc, List.append_assoc, ← hsplit.stream_eq]

theorem input_decoder (r : Relay c) {i : Input c} (h : i.chunk? = none) :
    (r.input fields i).decoder = r.decoder := by
  cases i with
  | bytes chunk => cases h
  | request call frame isPaused => exact (System.request_decoder fields r call frame isPaused).1
  | timeout => exact (System.onTimeout_decoder r).1
  | fail failure => exact (System.fail_decoder r failure).1

theorem kept (fields : Fields c) (inputs : List (Input c)) : Kept fields inputs := by
  induction inputs using List.reverseRecOn with
  | nil => exact ⟨[], by simp, by simp, rfl⟩
  | append_singleton inputs i ih =>
    cases hchunk : i.chunk? with
    | some chunk =>
      cases i with
      | bytes _ => exact ih.bytes _
      | _ => cases hchunk
    | none =>
      obtain ⟨fs, hfits, hreadable, harrived⟩ := ih
      refine ⟨fs, hfits, hreadable, ?_⟩
      rw [after_concat, input_decoder _ hchunk, arrived_append, arrived_other hchunk, harrived,
        List.append_nil]

/-- What a chunk shows to the decoder is what it shows of the stream. -/
theorem shows_iff (fields : Fields c) (inputs : List (Input c)) (chunk : Bytes) :
    (Malformed c ((after fields inputs).decoder.buffer ++ chunk) ↔
        Malformed c (arrived inputs ++ chunk)) ∧
      (NotText c ((after fields inputs).decoder.buffer ++ chunk) ↔
        NotText c (arrived inputs ++ chunk)) := by
  obtain ⟨fs, hfits, hreadable, harrived⟩ := kept fields inputs
  rw [harrived, List.append_assoc]
  exact ⟨(malformed_behind hfits hreadable).symm, (notText_behind hfits hreadable).symm⟩

theorem after_unfailed (fields : Fields c) {inputs : List (Input c)}
    (h : ¬ Malformed c (arrived inputs))
    (hchannel : ∀ failure, .fail failure ∉ inputs) : (after fields inputs).failure = none := by
  induction inputs using List.reverseRecOn with
  | nil => rfl
  | append_singleton inputs i ih =>
    rw [arrived_append] at h
    have hbefore := ih (fun hmalformed => h (hmalformed.append _)) fun failure hmem =>
      hchannel failure (List.mem_append_left _ hmem)
    rw [after_concat]
    cases i with
    | bytes chunk =>
      rw [arrived_bytes, ← (shows_iff fields inputs chunk).1] at h
      obtain ⟨-, frames, rest, -, -, hadd⟩ := add_wellFormed h
      change ((after fields inputs).onBytes fields chunk).failure = none
      unfold Relay.onBytes
      rw [hadd]
      exact (Relay.delivers_failure _ _).trans hbefore
    | request call frame isPaused => exact (Relay.request_failure _ _ _ _).trans hbefore
    | timeout => exact (Relay.onTimeout_failure _).trans hbefore
    | fail failure => exact absurd (by simp) (hchannel failure)

theorem after_failed {inputs : List (Input c)} {failure : Failure}
    (h : (after fields inputs).failure = some failure) (more : List (Input c)) :
    (after fields (inputs ++ more)).failure = some failure := by
  induction more using List.reverseRecOn with
  | nil => rwa [List.append_nil]
  | append_singleton more i ih =>
    rw [← List.append_assoc, after_concat]
    exact Relay.failure_stays ih i

theorem onBytesThrows_iff (inputs : List (Input c)) (chunk : Bytes) :
    (after fields inputs).onBytesThrows chunk = none ↔ ¬ NotText c (arrived inputs ++ chunk) := by
  rw [← (shows_iff fields inputs chunk).2]
  unfold Relay.onBytesThrows
  by_cases hmalformed : Malformed c ((after fields inputs).decoder.buffer ++ chunk)
  · by_cases htext : NotText c ((after fields inputs).decoder.buffer ++ chunk)
    · rw [add_notText htext]
      simp [htext]
    · obtain ⟨cause, hadd⟩ := add_malformed hmalformed htext
      rw [hadd]
      simp [htext]
  · obtain ⟨-, frames, rest, -, -, hadd⟩ := add_wellFormed hmalformed
    rw [hadd]
    exact iff_of_true rfl fun htext => hmalformed htext.malformed

/-- A property that chunks bring about comes with one of them. -/
theorem exists_shows {P : Bytes → Prop} (hnil : ¬ P []) {inputs : List (Input c)}
    (h : P (arrived inputs)) : ∃ before chunk later, inputs = before ++ .bytes chunk :: later ∧
      ¬ P (arrived before) ∧ P (arrived before ++ chunk) := by
  induction inputs using List.reverseRecOn with
  | nil => exact absurd h hnil
  | append_singleton inputs i ih =>
    by_cases hbefore : P (arrived inputs)
    · obtain ⟨before, chunk, later, rfl, hshows⟩ := ih hbefore
      exact ⟨before, chunk, later ++ [i], by simp, hshows⟩
    · rw [arrived_append] at h
      cases i with
      | bytes chunk =>
        rw [arrived_bytes] at h
        exact ⟨inputs, chunk, [], rfl, hbefore, h⟩
      | _ =>
        rw [arrived_other rfl, List.append_nil] at h
        exact absurd h hbefore

end

/-! ## Failing cleanly -/

/-- With a chunk the client records a violation: the request that waits completes with it, and every
later one throws it. -/
def Records (fields : Fields c) (before : List (Input c)) (chunk : Bytes) (later : List (Input c))
    (cause : Violation) : Prop :=
  (∀ call, (after fields before).waiter = some call →
    (after fields (before ++ [.bytes chunk])).waiter = none ∧
      (after fields (before ++ [.bytes chunk])).outcomes =
        (after fields before).outcomes ++ [.failed (.protocolViolation cause)]) ∧
    ∀ more, more <+: later →
      let r := after fields (before ++ .bytes chunk :: more)
      r.failure = some (.protocolViolation cause) ∧
        ∀ frame isPaused, r.refusal frame isPaused = some (.failure (.protocolViolation cause))

/-- Nothing leaves `_onBytes`; and the chunk that shows what cannot be read has the client record it,
where the channel had not failed before. -/
structure FailsCleanly (fields : Fields c) (inputs : List (Input c)) : Prop where
  contained : ∀ before chunk, before ++ [.bytes chunk] <+: inputs →
    (after fields before).onBytesThrows chunk = none
  recorded : Malformed c (arrived inputs) → ∃ before chunk later,
    inputs = before ++ .bytes chunk :: later ∧ ¬ Malformed c (arrived before) ∧
      Malformed c (arrived before ++ chunk) ∧
        ((∀ failure, .fail failure ∉ before) → ∃ cause, Records fields before chunk later cause)

theorem records_of_shows {fields : Fields c} {before : List (Input c)} {chunk : Bytes}
    (hbefore : ¬ Malformed c (arrived before)) (hshows : Malformed c (arrived before ++ chunk))
    (htext : ¬ NotText c (arrived before ++ chunk)) (hchannel : ∀ failure, .fail failure ∉ before)
    (later : List (Input c)) : ∃ cause, Records fields before chunk later cause := by
  rw [← (shows_iff fields before chunk).1] at hshows
  rw [← (shows_iff fields before chunk).2] at htext
  obtain ⟨cause, hadd⟩ := add_malformed hshows htext
  have hunfailed := after_unfailed fields hbefore hchannel
  refine ⟨cause, ?_⟩
  have hstep : after fields (before ++ [.bytes chunk]) =
      { after fields before with
        decoder := ⟨(after fields before).decoder.buffer ++ chunk⟩ }.fail
          (.protocolViolation cause) := by
    rw [after_concat]
    change (after fields before).onBytes fields chunk = _
    unfold Relay.onBytes
    rw [hadd]
  have hfailed : (after fields (before ++ [.bytes chunk])).failure
        = some (.protocolViolation cause) ∧
      ∀ call, (after fields before).waiter = some call →
        (after fields (before ++ [.bytes chunk])).waiter = none ∧
          (after fields (before ++ [.bytes chunk])).outcomes =
            (after fields before).outcomes ++ [.failed (.protocolViolation cause)] := by
    rw [hstep]
    apply Relay.fail_unfailed
    exact hunfailed
  refine ⟨hfailed.2, ?_⟩
  intro more _ r
  have hr : r.failure = some (.protocolViolation cause) := by
    have := after_failed hfailed.1 more
    rwa [List.append_assoc] at this
  refine ⟨hr, fun frame isPaused => ?_⟩
  unfold Relay.refusal
  rw [hr]

/-- **A client that fails cleanly.** In every run it does so exactly if the first thing in the stream
that cannot be read, where there is one, is not a frame whose payload is no UTF-8. -/
theorem fails_cleanly_iff (fields : Fields c) (inputs : List (Input c)) :
    FailsCleanly fields inputs ↔ ¬ NotText c (arrived inputs) := by
  constructor
  · rintro ⟨hcontained, -⟩ htext
    have hnil : ¬ NotText c [] := fun h => not_malformed_nil h.malformed
    obtain ⟨before, chunk, later, rfl, -, hshows⟩ := exists_shows hnil htext
    have hthrows := hcontained before chunk ⟨later, by simp⟩
    exact onBytesThrows_iff before chunk |>.mp hthrows hshows
  · intro htext
    have hpart : ∀ before chunk, before ++ [.bytes chunk] <+: inputs →
        ¬ NotText c (arrived before ++ chunk) := by
      rintro before chunk ⟨later, rfl⟩ hearly
      refine htext ?_
      rw [arrived_append, arrived_append, arrived_bytes]
      exact hearly.append _
    refine ⟨fun before chunk h => (onBytesThrows_iff before chunk).mpr (hpart before chunk h), ?_⟩
    intro hmalformed
    obtain ⟨before, chunk, later, rfl, hbefore, hshows⟩ := exists_shows not_malformed_nil hmalformed
    refine ⟨before, chunk, later, rfl, hbefore, hshows, fun hchannel => ?_⟩
    exact records_of_shows hbefore hshows (hpart before chunk ⟨later, by simp⟩) hchannel later

/-- A converter that refuses the byte 0xff, which is in no UTF-8 text. -/
def strictConvert : Convert :=
  { asciiConvert with utf8Decode := fun bytes => if 0xff ∈ bytes then none else some bytes }

def strictFields : Fields strictConvert :=
  ⟨System.asciiFields.int, System.asciiFields.string⟩

/-- A HELLO_ACK with that byte for its payload. -/
def garbledAck : Protocol.Frame := ⟨.helloAck, [0xff]⟩

/-- A negotiation that is answered by it stays without an answer. -/
theorem fails_cleanly_fails_at_garbled :
    ¬ ∀ (c : Convert) (fields : Fields c) (inputs : List (Input c)), FailsCleanly fields inputs := by
  intro h
  let asked : List (Input strictConvert) := [.request .negotiate ⟨.hello, []⟩ false]
  have hfits : ∀ f ∈ [garbledAck], f.Fits := by
    unfold Protocol.Frame.Fits
    decide
  have htext : NotText strictConvert garbledAck.encoded :=
    ⟨[], garbledAck, [], [], .none, by simpa [encodeAll] using splits_encodeAll hfits, by simp,
      by decide, rfl⟩
  have hthrows := (h strictConvert strictFields (asked ++ [.bytes garbledAck.encoded])).contained
    asked garbledAck.encoded List.prefix_rfl
  exact (onBytesThrows_iff asked garbledAck.encoded).mp hthrows htext

end OakBarrels.Client
