import OakBarrels.Protocol.Frame

/-!
# The decoder returns the frames of the stream

The bytes fed are the encodings of the frames returned and what the decoder still holds. A stream
splits into frames in one way only, so neither the cuts between the bytes fed nor the moments of the
calls to `next` matter.
-/

open Octets Runs

namespace OakBarrels.Protocol

def announced (stream : Bytes) : Nat := (readLength stream).toNat

/-- The body of a frame fits the control budget. -/
def Frame.Fits (f : Frame) : Prop := f.payload.length + 1 ≤ 2 ^ 20

def Frame.encoded (f : Frame) : Bytes := encodeFrame f.type f.payload

/-- A stream too short for its first frame, which may still be a good one. -/
def Short (stream : Bytes) : Prop :=
  stream.length < 4 ∨
    (1 ≤ announced stream ∧ announced stream ≤ 2 ^ 20 ∧ stream.length < 4 + announced stream)

/-- A stream whose first frame is refused, with the reason. -/
def Violates (stream : Bytes) : DecodeError → Prop
  | .none => False
  | .lengthTooSmall => 4 ≤ stream.length ∧ announced stream = 0
  | .frameTooLarge => 4 ≤ stream.length ∧ 2 ^ 20 < announced stream
  | .unknownMessageType => 4 ≤ stream.length ∧ 1 ≤ announced stream ∧ announced stream ≤ 2 ^ 20 ∧
      4 + announced stream ≤ stream.length ∧
      ∃ raw, stream[4]? = some raw ∧ isKnownMessageType raw = false

/-! ## Encoding -/

theorem encoded_eq (f : Frame) (h : f.Fits) : ∃ b0 b1 b2 b3,
    f.encoded = b0 :: b1 :: b2 :: b3 :: f.type.code :: f.payload ∧
      (ofLittleEndian b0 b1 b2 b3).toNat = f.payload.length + 1 := by
  have hlen : (1 + UInt32.ofNat f.payload.length).toNat = f.payload.length + 1 := by
    unfold Frame.Fits at h
    rw [UInt32.toNat_add, UInt32.toNat_ofNat', show (1 : UInt32).toNat = 1 from rfl]
    omega
  refine ⟨_, _, _, _, rfl, ?_⟩
  rw [ofLittleEndian_littleEndian, hlen]

theorem announced_cons (b0 b1 b2 b3 : Byte) (rest : Bytes) :
    announced (b0 :: b1 :: b2 :: b3 :: rest) = (ofLittleEndian b0 b1 b2 b3).toNat := rfl

theorem four_bytes {stream : Bytes} (h : 4 ≤ stream.length) :
    ∃ b0 b1 b2 b3 rest, stream = b0 :: b1 :: b2 :: b3 :: rest := by
  match stream, h with
  | b0 :: b1 :: b2 :: b3 :: rest, _ => exact ⟨b0, b1, b2, b3, rest, rfl⟩

/-- A header announcing a frame that is complete and has a known type: the stream starts with the
encoding of that frame. -/
theorem encoded_of_header {stream : Bytes} {raw : Byte} {type : MessageType}
    (h4 : 4 ≤ stream.length) (h1 : 1 ≤ announced stream) (hmax : announced stream ≤ 2 ^ 20)
    (hlen : 4 + announced stream ≤ stream.length) (hraw : stream[4]? = some raw)
    (htype : MessageType.ofCode raw = some type) :
    let f : Frame := ⟨type, (stream.take (4 + announced stream)).drop 5⟩
    f.Fits ∧ stream = f.encoded ++ stream.drop (4 + announced stream) := by
  obtain ⟨b0, b1, b2, b3, rest, rfl⟩ := four_bytes h4
  obtain ⟨n, hn⟩ := Nat.exists_eq_succ_of_ne_zero (show announced (b0 :: b1 :: b2 :: b3 :: rest) ≠ 0
    by omega)
  cases rest with
  | nil => simp at hraw
  | cons r rest =>
    obtain rfl : r = raw := by simpa using hraw
    rw [hn] at hlen hmax ⊢
    have htake : ((b0 :: b1 :: b2 :: b3 :: r :: rest).take (4 + n.succ)).drop 5 = rest.take n := by
      rw [show 4 + n.succ = n + 5 by omega]
      rfl
    have hdrop : (b0 :: b1 :: b2 :: b3 :: r :: rest).drop (4 + n.succ) = rest.drop n := by
      rw [show 4 + n.succ = n + 5 by omega]
      rfl
    have hpayload : (rest.take n).length = n := by
      simp only [List.length_cons] at hlen
      rw [List.length_take]
      omega
    have hword : (1 : UInt32) + UInt32.ofNat n = ofLittleEndian b0 b1 b2 b3 := by
      apply UInt32.toNat_inj.mp
      rw [announced_cons] at hn
      rw [hn, UInt32.toNat_add, UInt32.toNat_ofNat', show (1 : UInt32).toNat = 1 from rfl]
      omega
    refine ⟨by unfold Frame.Fits; simp only; rw [htake, hpayload]; omega, ?_⟩
    simp only [Frame.encoded, encodeFrame, htake, hdrop, hpayload, hword,
      littleEndian_ofLittleEndian, code_of_ofCode htype]
    simp

/-! ## One call -/

theorem FrameDecoder.next_of_failed {d : FrameDecoder} (h : d.failed = true) :
    d.next = (d, none) := by
  rw [FrameDecoder.next, if_pos h]

/-- What a call of `next` on a decoder that has not failed comes to. -/
inductive FrameDecoder.Next (buffer : Bytes) : FrameDecoder × Option Frame → Prop
  | takes (f : Frame) (rest : Bytes) : f.Fits → buffer = f.encoded ++ rest →
      Next buffer (⟨rest, .none⟩, some f)
  | waits : Short buffer → Next buffer (⟨buffer, .none⟩, none)
  | fails (e : DecodeError) : Violates buffer e → Next buffer (⟨buffer, e⟩, none)

theorem FrameDecoder.next_spec (buffer : Bytes) :
    FrameDecoder.Next buffer (FrameDecoder.next ⟨buffer, .none⟩) := by
  have hmax : kMaxControlFrameBytes.toNat = 2 ^ 20 := rfl
  have hone : (1 : UInt32).toNat = 1 := rfl
  unfold FrameDecoder.next
  rw [if_neg (by simp [FrameDecoder.failed])]
  simp only [kHeaderBytes, UInt32.lt_iff_toNat_lt, hmax, hone]
  change Next buffer (if _ then _ else if announced buffer < 1 then _
    else if 2 ^ 20 < announced buffer then _
    else if buffer.length < 4 + announced buffer then _ else _)
  split_ifs with h4 h1 hbig hlen
  · exact .waits (Or.inl h4)
  · exact .fails .lengthTooSmall ⟨by omega, by omega⟩
  · exact .fails .frameTooLarge ⟨by omega, hbig⟩
  · exact .waits (Or.inr ⟨by omega, by omega, hlen⟩)
  · split
    · rename_i hnone
      rw [List.getElem?_eq_none_iff] at hnone
      omega
    rename_i raw hraw
    split
    · rename_i htype
      refine .fails .unknownMessageType
        ⟨by omega, by omega, by omega, by omega, raw, hraw, ?_⟩
      rw [isKnownMessageType, htype]
      rfl
    · rename_i type htype
      obtain ⟨hfits, hsplit⟩ :=
        encoded_of_header (by omega) (by omega) (by omega) (by omega) hraw htype
      exact .takes _ _ hfits hsplit

/-! ## Splitting a stream -/

def encodeAll (frames : List Frame) : Bytes := frames.flatMap Frame.encoded

theorem encoded_append_length (f : Frame) (h : f.Fits) (rest : Bytes) :
    4 ≤ (f.encoded ++ rest).length ∧ announced (f.encoded ++ rest) = f.payload.length + 1 ∧
      4 + announced (f.encoded ++ rest) ≤ (f.encoded ++ rest).length ∧
      (f.encoded ++ rest)[4]? = some f.type.code := by
  obtain ⟨b0, b1, b2, b3, henc, hlen⟩ := encoded_eq f h
  have hann : announced (f.encoded ++ rest) = f.payload.length + 1 := by
    rw [henc]
    exact hlen
  refine ⟨by rw [henc]; simp, hann, ?_, by rw [henc]; rfl⟩
  rw [hann, henc]
  simp
  omega

theorem not_short_encoded (f : Frame) (h : f.Fits) (rest : Bytes) :
    ¬ Short (f.encoded ++ rest) := by
  obtain ⟨h4, -, hlen, -⟩ := encoded_append_length f h rest
  unfold Short
  omega

theorem not_violates_encoded (f : Frame) (h : f.Fits) (rest : Bytes) (e : DecodeError) :
    ¬ Violates (f.encoded ++ rest) e := by
  obtain ⟨-, hann, -, hcode⟩ := encoded_append_length f h rest
  unfold Frame.Fits at h
  cases e with
  | none => exact id
  | lengthTooSmall =>
    rintro ⟨-, h0⟩
    omega
  | frameTooLarge =>
    rintro ⟨-, h0⟩
    omega
  | unknownMessageType =>
    rintro ⟨-, -, -, -, raw, hraw, hknown⟩
    rw [hcode] at hraw
    obtain rfl := Option.some.inj hraw
    simp [isKnownMessageType] at hknown

theorem encoded_inj {f g : Frame} {x y : Bytes} (hf : f.Fits) (hg : g.Fits)
    (h : f.encoded ++ x = g.encoded ++ y) : f = g ∧ x = y := by
  have hann := (encoded_append_length f hf x).2.1
  rw [h, (encoded_append_length g hg y).2.1] at hann
  obtain ⟨b0, b1, b2, b3, hfe, -⟩ := encoded_eq f hf
  obtain ⟨c0, c1, c2, c3, hge, -⟩ := encoded_eq g hg
  rw [hfe, hge] at h
  simp only [List.cons_append, List.cons.injEq] at h
  obtain ⟨-, -, -, -, hcode, hrest⟩ := h
  obtain ⟨hpayload, hxy⟩ := List.append_inj hrest (by omega)
  have htype : f.type = g.type := by
    have := ofCode_code f.type
    rw [hcode, ofCode_code] at this
    exact (Option.some.inj this).symm
  refine ⟨?_, hxy⟩
  cases f
  cases g
  simp_all

/-- Where the frames of a stream end: nothing more to take, for now or for good. -/
def Ends (stream : Bytes) (e : DecodeError) : Prop :=
  (e = .none ∧ Short stream) ∨ Violates stream e

theorem violates_unique {stream : Bytes} {e e' : DecodeError} (h : Violates stream e)
    (h' : Violates stream e') : e = e' := by
  cases e <;> cases e' <;> simp only [Violates] at h h' <;> first | rfl | (exfalso; omega)

theorem short_not_violates {stream : Bytes} {e : DecodeError} (h : Short stream) :
    ¬ Violates stream e := by
  unfold Short at h
  intro hv
  cases e with
  | none => exact hv
  | lengthTooSmall =>
    obtain ⟨h4, h0⟩ := hv
    omega
  | frameTooLarge =>
    obtain ⟨h4, hbig⟩ := hv
    omega
  | unknownMessageType =>
    obtain ⟨h4, h1, hmax, hlen, -⟩ := hv
    omega

theorem ends_unique {stream : Bytes} {e e' : DecodeError} (h : Ends stream e)
    (h' : Ends stream e') : e = e' := by
  rcases h with ⟨rfl, hs⟩ | hv <;> rcases h' with ⟨rfl, hs'⟩ | hv'
  · rfl
  · exact absurd hv' (short_not_violates hs)
  · exact absurd hv (short_not_violates hs')
  · exact violates_unique hv hv'

theorem not_ends_encoded (f : Frame) (h : f.Fits) (rest : Bytes) (e : DecodeError) :
    ¬ Ends (f.encoded ++ rest) e := by
  rintro (⟨-, hs⟩ | hv)
  · exact not_short_encoded f h rest hs
  · exact not_violates_encoded f h rest e hv

/-- **A stream splits in one way only** into frames and an end without a frame. -/
theorem split_unique {fs gs : List Frame} {x y : Bytes} {e e' : DecodeError}
    (hf : ∀ f ∈ fs, f.Fits) (hg : ∀ g ∈ gs, g.Fits) (hx : Ends x e) (hy : Ends y e')
    (h : encodeAll fs ++ x = encodeAll gs ++ y) : fs = gs ∧ x = y ∧ e = e' := by
  induction fs generalizing gs with
  | nil =>
    cases gs with
    | nil =>
      obtain rfl : x = y := by simpa [encodeAll] using h
      exact ⟨rfl, rfl, ends_unique hx hy⟩
    | cons g gs =>
      obtain rfl : x = g.encoded ++ (encodeAll gs ++ y) := by simpa [encodeAll] using h
      exact absurd hx (not_ends_encoded g (hg g List.mem_cons_self) _ e)
  | cons f fs ih =>
    have hff := hf f List.mem_cons_self
    cases gs with
    | nil =>
      obtain rfl : f.encoded ++ (encodeAll fs ++ x) = y := by simpa [encodeAll] using h
      exact absurd hy (not_ends_encoded f hff _ e')
    | cons g gs =>
      have hcut : f.encoded ++ (encodeAll fs ++ x) = g.encoded ++ (encodeAll gs ++ y) := by
        simpa [encodeAll] using h
      obtain ⟨rfl, hrest⟩ := encoded_inj hff (hg g List.mem_cons_self) hcut
      obtain ⟨rfl, hxy, he⟩ := ih (fun f hm => hf f (List.mem_cons_of_mem _ hm))
        (fun g hm => hg g (List.mem_cons_of_mem _ hm)) hrest
      exact ⟨rfl, hxy, he⟩

/-! ## Whole runs -/

namespace FrameDecoder

def fed (ops : List Op) : Bytes :=
  ops.flatMap fun
    | .feed data => data
    | .next => []

def returned (history : List (Op × Option Frame)) : List Frame := history.filterMap Prod.snd

theorem violates_append {stream : Bytes} {e : DecodeError} (h : Violates stream e) (more : Bytes) :
    Violates (stream ++ more) e := by
  have hann : 4 ≤ stream.length → announced (stream ++ more) = announced stream := by
    intro h4
    obtain ⟨b0, b1, b2, b3, rest, rfl⟩ := four_bytes h4
    rfl
  cases e with
  | none => exact h
  | lengthTooSmall =>
    obtain ⟨h4, h0⟩ := h
    exact ⟨by rw [List.length_append]; omega, by rw [hann h4]; exact h0⟩
  | frameTooLarge =>
    obtain ⟨h4, hbig⟩ := h
    exact ⟨by rw [List.length_append]; omega, by rw [hann h4]; exact hbig⟩
  | unknownMessageType =>
    obtain ⟨h4, h1, hmax, hlen, raw, hraw, hknown⟩ := h
    refine ⟨by rw [List.length_append]; omega, by rw [hann h4]; exact h1, by rw [hann h4]; exact hmax,
      by rw [hann h4, List.length_append]; omega, raw, ?_, hknown⟩
    rw [List.getElem?_append_left (by omega)]
    exact hraw

/-- The stream so far is the frames returned and a rest: what the decoder holds, or, after a
failure, a rest that starts with the frame it refused. -/
structure Inv (history : List (Op × Option Frame)) (d : FrameDecoder) (rest : Bytes) : Prop where
  stream : fed (history.map Prod.fst) = encodeAll (returned history) ++ rest
  fits : ∀ f ∈ returned history, f.Fits
  live : d.error = .none → rest = d.buffer
  dead : d.error ≠ .none → Violates rest d.error

theorem fed_append (a b : List Op) : fed (a ++ b) = fed a ++ fed b := List.flatMap_append

theorem returned_append (a b : List (Op × Option Frame)) :
    returned (a ++ b) = returned a ++ returned b := List.filterMap_append

theorem encodeAll_append (a b : List Frame) : encodeAll (a ++ b) = encodeAll a ++ encodeAll b :=
  List.flatMap_append

section

variable {h : List (Op × Option Frame)} {d : FrameDecoder} {rest : Bytes}

theorem feed_inv (hinv : Inv h d rest) (data : Bytes) :
    Inv (h ++ [(.feed data, (step d (.feed data)).2)]) (step d (.feed data)).1 (rest ++ data) := by
  obtain ⟨hstream, hfits, hopen, hclosed⟩ := hinv
  have hfed : fed ((h ++ [(Op.feed data, (step d (.feed data)).2)]).map Prod.fst) =
      encodeAll (returned h) ++ (rest ++ data) := by
    rw [List.map_append, fed_append, hstream]
    simp [fed]
  have hret : returned (h ++ [(Op.feed data, (step d (.feed data)).2)]) = returned h := by
    rw [returned_append]
    simp [returned, step]
  refine ⟨by rw [hret]; exact hfed, by rw [hret]; exact hfits, ?_, ?_⟩
  · simp only [step, feed]
    split
    · rename_i hskip
      intro he
      rcases hskip with hf | h0
      · simp [failed, he] at hf
      · rw [List.length_eq_zero_iff.mp h0, List.append_nil]
        exact hopen he
    · intro he
      rw [hopen he]
  · simp only [step, feed]
    split
    · exact fun he => violates_append (hclosed he) data
    · exact fun he => violates_append (hclosed he) data

theorem next_inv (hinv : Inv h d rest) :
    ∃ rest', Inv (h ++ [(Op.next, (step d .next).2)]) (step d .next).1 rest' := by
  obtain ⟨hstream, hfits, hopen, hclosed⟩ := hinv
  have hfed : fed ((h ++ [(Op.next, (step d .next).2)]).map Prod.fst) =
      encodeAll (returned h) ++ rest := by
    rw [List.map_append, fed_append, hstream]
    simp [fed]
  have hsame : ∀ d', d.next = (d', none) → (d'.error = .none → rest = d'.buffer) →
      (d'.error ≠ .none → Violates rest d'.error) →
      ∃ rest', Inv (h ++ [(Op.next, (step d .next).2)]) (step d .next).1 rest' := by
    intro d' hd' h1 h2
    have hret : returned (h ++ [(Op.next, (step d .next).2)]) = returned h := by
      rw [returned_append]
      simp [returned, step, hd']
    exact ⟨rest, by rw [hret]; exact hfed, by rw [hret]; exact hfits,
      by simp only [step, hd']; exact h1, by simp only [step, hd']; exact h2⟩
  by_cases herr : d.error = .none
  · obtain ⟨buffer, error⟩ := d
    simp only at herr
    subst herr
    have hrest := hopen rfl
    simp only at hrest
    subst hrest
    have hspec := next_spec rest
    generalize hnext : FrameDecoder.next ⟨rest, .none⟩ = r at hspec
    cases hspec with
    | takes f rest' hf hbuf =>
      have hret : returned (h ++ [(Op.next, (step ⟨rest, .none⟩ .next).2)]) =
          returned h ++ [f] := by
        rw [returned_append]
        simp [returned, step, hnext]
      refine ⟨rest', ?_, ?_, ?_, ?_⟩
      · rw [hret, hfed, encodeAll_append]
        simp [encodeAll, ← hbuf]
      · rw [hret]
        intro g hg
        rcases List.mem_append.mp hg with hg | hg
        · exact hfits g hg
        · rw [List.mem_singleton.mp hg]
          exact hf
      · simp [step, hnext]
      · simp [step, hnext]
    | waits _ => exact hsame _ hnext hopen hclosed
    | fails e he => exact hsame _ hnext (fun _ => rfl) fun _ => he
  · exact hsame d (next_of_failed (by simpa [failed] using herr)) hopen hclosed

theorem step_inv (hinv : Inv h d rest) (op : Op) :
    ∃ rest', Inv (h ++ [(op, (step d op).2)]) (step d op).1 rest' := by
  cases op with
  | feed data => exact ⟨rest ++ data, feed_inv hinv data⟩
  | next => exact next_inv hinv

end

theorem run_inv (ops : List Op) :
    ∃ rest, Inv (trace step fresh ops) (final step fresh ops) rest := by
  apply trace_invariant step fun h d => ∃ rest, Inv h d rest
  · exact ⟨[], rfl, by simp [returned], fun _ => rfl, fun h => absurd rfl h⟩
  · rintro h d op ⟨rest, hinv⟩
    exact step_inv hinv op

/-! ## What a decoder does with a stream -/

def frames (ops : List Op) : List Frame := returned (trace step fresh ops)

def after (ops : List Op) : FrameDecoder := final step fresh ops

/-- The run ends with a call of `next` that returned nothing. -/
def Drained (ops : List Op) : Prop :=
  ∃ earlier, ops = earlier ++ [.next] ∧ ((after earlier).next).2 = none

theorem stream_of_run (ops : List Op) :
    ∃ rest, fed ops = encodeAll (frames ops) ++ rest ∧ (∀ f ∈ frames ops, f.Fits) ∧
      ((after ops).error = .none → rest = (after ops).buffer) ∧
      ((after ops).error ≠ .none → Violates rest (after ops).error) := by
  obtain ⟨rest, hstream, hfits, hlive, hdead⟩ := run_inv ops
  rw [trace_inputs] at hstream
  exact ⟨rest, hstream, hfits, hlive, hdead⟩

theorem step_of_failed {d : FrameDecoder} (h : d.failed = true) (op : Op) :
    step d op = (d, none) := by
  cases op with
  | feed data => simp [step, feed, h]
  | next => exact next_of_failed h

theorem run_of_failed {d : FrameDecoder} (h : d.failed = true) (ops : List Op) :
    final step d ops = d ∧ ∀ o ∈ trace step d ops, o.2 = none := by
  induction ops with
  | nil => exact ⟨rfl, by simp [trace]⟩
  | cons op rest ih =>
    rw [final_cons, trace, step_of_failed h op]
    refine ⟨ih.1, ?_⟩
    intro o ho
    rcases List.mem_cons.mp ho with rfl | ho
    · rfl
    · exact ih.2 o ho

theorem not_failed_iff (d : FrameDecoder) : d.failed = false ↔ d.error = .none := by
  simp [failed]

/-- On what is left of a stream, the next call of `next` fails exactly as the stream says. -/
theorem next_error (buffer : Bytes) (e : DecodeError) (he : e ≠ .none) :
    (next ⟨buffer, .none⟩).1.error = e ↔ Violates buffer e := by
  have hspec := next_spec buffer
  generalize next ⟨buffer, .none⟩ = r at hspec
  cases hspec with
  | takes f rest hf hbuf =>
    simp only [hbuf]
    exact ⟨fun h => absurd h.symm he, fun h => absurd h (not_violates_encoded f hf rest e)⟩
  | waits hshort =>
    exact ⟨fun h => absurd h.symm he, fun h => absurd h (short_not_violates hshort)⟩
  | fails e' hv =>
    exact ⟨fun h => h ▸ hv, fun h => violates_unique hv h⟩

theorem next_waits (buffer : Bytes) (hnone : (next ⟨buffer, .none⟩).2 = none)
    (hlive : (next ⟨buffer, .none⟩).1.error = .none) :
    (next ⟨buffer, .none⟩).1.buffer = buffer ∧ Short buffer := by
  have hspec := next_spec buffer
  generalize next ⟨buffer, .none⟩ = r at *
  cases hspec with
  | takes f rest _ _ => simp at hnone
  | waits hshort => exact ⟨rfl, hshort⟩
  | fails e hv =>
    simp only at hlive
    subst hlive
    exact absurd hv id

theorem drained_ends {ops : List Op} (h : Drained ops) :
    ∃ rest, fed ops = encodeAll (frames ops) ++ rest ∧ (∀ f ∈ frames ops, f.Fits) ∧
      Ends rest (after ops).error := by
  obtain ⟨rest, hstream, hfits, hlive, hdead⟩ := stream_of_run ops
  refine ⟨rest, hstream, hfits, ?_⟩
  by_cases herr : (after ops).error = .none
  · refine Or.inl ⟨herr, ?_⟩
    rw [hlive herr]
    obtain ⟨earlier, rfl, hnone⟩ := h
    have hafter : after (earlier ++ [.next]) = (after earlier).next.1 := final_concat ..
    rw [hafter] at herr ⊢
    by_cases hfailed : (after earlier).failed = true
    · rw [next_of_failed hfailed] at herr
      exact absurd herr (by simpa [failed] using hfailed)
    · rw [Bool.not_eq_true, not_failed_iff] at hfailed
      generalize after earlier = d at *
      obtain ⟨buffer, error⟩ := d
      simp only at hfailed
      subst hfailed
      obtain ⟨hbuf, hshort⟩ := next_waits buffer hnone herr
      rwa [hbuf]
  · exact Or.inr (hdead herr)

/-- Frames that fit, fed in any pieces to a decoder that is drained, come out and leave nothing. -/
theorem drained_frames {ops : List Op} {fs : List Frame} (hall : ∀ f ∈ fs, f.Fits)
    (hfed : fed ops = encodeAll fs) (hdrained : Drained ops) :
    frames ops = fs ∧ after ops = .fresh := by
  obtain ⟨rest, hstream, hfits, hends⟩ := drained_ends hdrained
  rw [hfed] at hstream
  obtain ⟨hframes, -, herror⟩ := split_unique (y := []) hfits hall hends
    (Or.inl ⟨rfl, Or.inl (by simp)⟩) (by simpa using hstream.symm)
  refine ⟨hframes, ?_⟩
  obtain ⟨rest', hstream', -, hlive, -⟩ := stream_of_run ops
  rw [hfed, hframes] at hstream'
  have hnil : rest' = [] := by simpa using hstream'
  have hbuffer := hlive herror
  rw [hnil] at hbuffer
  generalize after ops = d at *
  obtain ⟨buffer, error⟩ := d
  simp only at hbuffer herror
  rw [← hbuffer, herror]
  rfl

/-- **The stream and its frames.** For every run of a fresh decoder: while it has not failed, the
bytes fed are the encoded frames and what it holds; a call of `next` that returns nothing leaves
less than a frame; it fails exactly when the stream goes on with a frame that breaks the format;
after that nothing changes; and the frames and the error of a drained run depend on the bytes only. -/
theorem decoder_stream (ops : List Op) :
    ((after ops).failed = false →
      fed ops = encodeAll (frames ops) ++ (after ops).buffer ∧
      ((after ops).next.2 = none → (after ops).next.1.failed = false →
        Short (after ops).next.1.buffer ∧ (after ops).next.1.buffer.length < 4 + 2 ^ 20) ∧
      (∀ e, e ≠ .none → ((after ops).next.1.error = e ↔
        Violates ((fed ops).drop (encodeAll (frames ops)).length) e)) ∧
      ∀ data, ((after ops).feed data).error = .none) ∧
    ((after ops).failed = true → ∀ later,
      final step (after ops) later = after ops ∧
        ∀ o ∈ trace step (after ops) later, o.2 = none) ∧
    (∀ others, fed others = fed ops → Drained ops → Drained others →
      frames others = frames ops ∧ (after others).error = (after ops).error) := by
  refine ⟨fun hok => ?_, fun hfailed later => run_of_failed hfailed later, ?_⟩
  · obtain ⟨rest, hstream, -, hlive, -⟩ := stream_of_run ops
    rw [not_failed_iff] at hok
    rw [hlive hok] at hstream
    generalize after ops = d at *
    obtain ⟨buffer, error⟩ := d
    simp only at hok
    subst hok
    refine ⟨hstream, ?_, ?_, ?_⟩
    · intro hnone hsafe
      rw [not_failed_iff] at hsafe
      obtain ⟨hbuf, hshort⟩ := next_waits buffer hnone hsafe
      rw [hbuf]
      refine ⟨hshort, ?_⟩
      unfold Short at hshort
      omega
    · intro e he
      rw [hstream, List.drop_left]
      exact next_error buffer e he
    · intro data
      simp only [feed]
      split <;> rfl
  · intro others hsame hdrained hdrained'
    obtain ⟨rest, hstream, hfits, hends⟩ := drained_ends hdrained
    obtain ⟨rest', hstream', hfits', hends'⟩ := drained_ends hdrained'
    rw [hsame, hstream] at hstream'
    obtain ⟨hframes, -, herr⟩ := split_unique hfits hfits' hends hends' hstream'
    exact ⟨hframes.symm, herr.symm⟩

end FrameDecoder

end OakBarrels.Protocol
