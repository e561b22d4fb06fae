import OakBarrels.Protocol.FrameProofs

/-!
# How a stream splits

Every stream is a number of frames and an end without one, in one way only. Both decoders, and the
station over its reads, are judged by that split.
-/

open Octets

namespace OakBarrels.Protocol

/-- A stream is a number of frames and an end without one. -/
structure Splits (stream : Bytes) (frames : List Frame) (rest : Bytes) (e : DecodeError) : Prop where
  stream_eq : stream = encodeAll frames ++ rest
  fits : ∀ f ∈ frames, f.Fits
  ends : Ends rest e

theorem encoded_length_pos (f : Frame) : 0 < f.encoded.length := by
  simp [Frame.encoded, encodeFrame]

theorem exists_splits (stream : Bytes) : ∃ frames rest e, Splits stream frames rest e := by
  induction hn : stream.length using Nat.strong_induction_on generalizing stream with
  | _ n ih =>
    have hspec := FrameDecoder.next_spec stream
    generalize FrameDecoder.next ⟨stream, .none⟩ = r at hspec
    cases hspec with
    | takes f rest hf hsplit =>
      have hpos := encoded_length_pos f
      have hlt : rest.length < n := by
        rw [← hn, hsplit, List.length_append]
        omega
      obtain ⟨frames, rest', e, hrest, hfits, hends⟩ := ih rest.length hlt rest rfl
      refine ⟨f :: frames, rest', e, ?_, by simpa using ⟨hf, hfits⟩, hends⟩
      rw [hsplit, hrest]
      simp [encodeAll]
    | waits hshort => exact ⟨[], stream, .none, rfl, by simp, .inl ⟨rfl, hshort⟩⟩
    | fails e hviolates => exact ⟨[], stream, e, rfl, by simp, .inr hviolates⟩

section

variable {stream rest rest' left more : Bytes} {frames frames' others : List Frame}
  {e e' : DecodeError}

theorem Splits.unique (h : Splits stream frames rest e) (h' : Splits stream frames' rest' e') :
    frames = frames' ∧ rest = rest' ∧ e = e' :=
  split_unique h.fits h'.fits h.ends h'.ends (h.stream_eq.symm.trans h'.stream_eq)

theorem Splits.append (h : Splits stream frames left e) (hmore : Splits (left ++ more) others rest e') :
    Splits (stream ++ more) (frames ++ others) rest e' := by
  refine ⟨?_, ?_, hmore.ends⟩
  · rw [h.stream_eq, List.append_assoc, hmore.stream_eq, FrameDecoder.encodeAll_append,
      List.append_assoc]
  · intro f hf
    rcases List.mem_append.mp hf with hf | hf
    · exact h.fits f hf
    · exact hmore.fits f hf

/-- A refused frame stays refused, whatever follows. -/
theorem Splits.append_refused (h : Splits stream frames left e) (he : e ≠ .none) (more : Bytes) :
    Splits (stream ++ more) frames (left ++ more) e := by
  refine ⟨by rw [h.stream_eq, List.append_assoc], h.fits, ?_⟩
  rcases h.ends with ⟨hnone, -⟩ | hviolates
  · exact absurd hnone he
  · exact .inr (FrameDecoder.violates_append hviolates more)

theorem Splits.short (h : Splits stream frames rest .none) : Short rest := by
  rcases h.ends with ⟨-, hshort⟩ | hviolates
  · exact hshort
  · exact absurd hviolates id

end

theorem splits_encodeAll {frames : List Frame} (h : ∀ f ∈ frames, f.Fits) :
    Splits (encodeAll frames) frames [] .none :=
  ⟨(List.append_nil _).symm, h, .inl ⟨rfl, .inl (by decide)⟩⟩

/-- What a run that takes all it can comes to. -/
theorem FrameDecoder.drained_splits {ops : List Op} (h : Drained ops) :
    ∃ rest, Splits (fed ops) (frames ops) rest (after ops).error := by
  obtain ⟨rest, hstream, hfits, hends⟩ := drained_ends h
  exact ⟨rest, hstream, hfits, hends⟩

end OakBarrels.Protocol
