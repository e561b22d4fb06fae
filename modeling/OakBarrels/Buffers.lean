import OakBarrels.Client.Violations
import OakBarrels.StationLaws

/-!
# What the decoders keep

However much a peer sends, the station keeps less than a frame and a read. The client keeps less than a
frame as long as it has refused nothing; from its first refusal on it keeps everything.
-/

open Octets Binary64 Runs

namespace OakBarrels

open Json Protocol

/-! ## The station -/

theorem Protocol.Short.length_lt {stream : Bytes} (h : Short stream) : stream.length < 4 + 2 ^ 20 := by
  rcases h with h | ⟨-, hmax, h⟩
  · omega
  · omega

namespace Station

variable {σ : Type} (unrepresentable : Unrepresentable) (backend : EngineBackend σ)

theorem next_length_le (d : FrameDecoder) : d.next.1.buffer.length ≤ d.buffer.length := by
  by_cases hfailed : d.failed = true
  · unfold FrameDecoder.next
    rw [if_pos hfailed]
  · obtain ⟨buffer, error⟩ := d
    obtain rfl : error = .none := by simpa [FrameDecoder.failed] using hfailed
    have hspec := FrameDecoder.next_spec buffer
    generalize FrameDecoder.next ⟨buffer, .none⟩ = r at hspec
    cases hspec with
    | takes f rest hf hsplit =>
      rw [hsplit, List.length_append]
      exact Nat.le_add_left _ _
    | waits hshort => exact le_rfl
    | fails e hviolates => exact le_rfl

/-- Nothing is added to the buffer while frames are taken from it. -/
theorem drainWithin_length_le (turns : Nat) (s : Station σ) :
    (drainWithin unrepresentable backend turns s).2.decoder.buffer.length ≤ s.decoder.buffer.length := by
  induction turns generalizing s with
  | zero => exact le_rfl
  | succ turns ih =>
    have hnext := next_length_le s.decoder
    unfold drainWithin
    rcases hrun : s.decoder.next with ⟨decoder, _ | frame⟩ <;> rw [hrun] at hnext
    · exact hnext
    · simp only
      split
      · exact (ih _).trans hnext
      · exact hnext

/-- **The station keeps little.** Whatever bytes come in, in whatever reads, the decoder never holds as
much as the largest frame, its header and one read. -/
theorem loop_keeps (s : σ) (transcript : Bool) (chunks : List Chunk) (ending : Ending) :
    (loop unrepresentable backend chunks ending (fresh s transcript)).1.decoder.buffer.length
      < 4 + 2 ^ 20 + kMaxIoChunk := by
  have hloop : ∀ (chunks : List Chunk) (world : World σ) (handed : List Frame) (buffer : Bytes),
      Short buffer →
      (loop unrepresentable backend chunks ending ⟨⟨buffer, .none⟩, world, handed⟩).1.decoder.buffer.length
        < 4 + 2 ^ 20 + kMaxIoChunk := by
    intro chunks
    induction chunks with
    | nil =>
      intro world handed buffer hshort
      have hless := hshort.length_lt
      cases ending with
      | closed => exact hless.trans_le (Nat.le_add_right _ _)
      | failed => exact hless.trans_le (Nat.le_add_right _ _)
    | cons chunk rest ih =>
      intro world handed buffer hshort
      obtain ⟨frames, left, e, hsplit⟩ := exists_splits (buffer ++ chunk.data)
      obtain ⟨decoder, hdrain, hfailed, hleft⟩ :=
        drain_splits unrepresentable backend world handed hsplit
      have hfed : FrameDecoder.feed ⟨buffer, .none⟩ chunk.data = ⟨buffer ++ chunk.data, .none⟩ := by
        simp [FrameDecoder.feed, FrameDecoder.failed, chunk.nonempty]
      have hkept : decoder.buffer.length < 4 + 2 ^ 20 + kMaxIoChunk := by
        have hle := drainWithin_length_le unrepresentable backend ((buffer ++ chunk.data).length + 1)
          ⟨⟨buffer ++ chunk.data, .none⟩, world, handed⟩
        change (drain unrepresentable backend ⟨⟨buffer ++ chunk.data, .none⟩, world, handed⟩).2.decoder.buffer.length
          ≤ (buffer ++ chunk.data).length at hle
        have hless := hshort.length_lt
        have hfits := chunk.fits
        rw [hdrain, List.length_append] at hle
        simp only at hle
        omega
      simp only [loop, hfed, hdrain]
      split
      · exact hkept
      · rename_i hgood
        split
        · rename_i hopen
          obtain rfl := hleft hopen
          have hnone : e = .none := by
            simpa [FrameDecoder.failed] using hgood
          subst hnone
          exact ih _ _ _ hsplit.short
        · exact hkept
  exact hloop chunks _ [] [] (.inl (by decide))

end Station

/-! ## The client -/

namespace Client

variable {c : Convert}

/-- Why the client refuses a stream that splits so: a frame it cannot read, or the end. -/
def Refuses (c : Convert) (fs : List Protocol.Frame) (e : DecodeError) : Prop :=
  e ≠ .none ∨ ∃ f ∈ fs, ∀ g : Frame c, ¬ Reads f g

theorem refuses_cons {f : Protocol.Frame} {fs : List Protocol.Frame} {e : DecodeError} {g : Frame c}
    (h : Reads f g) : Refuses c (f :: fs) e ↔ Refuses c fs e := by
  have hf : ¬ ∀ g : Frame c, ¬ Reads f g := fun hnone => hnone g h
  unfold Refuses
  rw [List.exists_mem_cons_iff, or_iff_right hf]

/-- The loop over a buffer that splits so comes to the rest, or it throws. -/
theorem addLoop_outcome (buffer : Bytes) {rest : Bytes} {fs : List Protocol.Frame} {e : DecodeError}
    (hfits : ∀ f ∈ fs, f.Fits) (hends : Ends rest e) (offset : Nat) (frames : List (Frame c))
    (h : buffer.drop offset = encodeAll fs ++ rest) :
    (¬ Refuses c fs e ∧ ∃ gs offset', addLoop buffer offset frames = .ok (gs, offset') ∧
        buffer.drop offset' = rest) ∨
      (Refuses c fs e ∧ ∃ thrown, addLoop buffer offset frames = .error thrown) := by
  induction fs generalizing offset frames with
  | nil =>
    have hrest : buffer.drop offset = rest := h
    rcases hends with ⟨rfl, hshort⟩ | hviolates
    · left
      rw [← hrest] at hshort
      exact ⟨by simp [Refuses], frames, offset, addLoop_short hshort, hrest⟩
    · right
      have he : e ≠ .none := by
        rintro rfl
        exact hviolates
      rw [← hrest] at hviolates
      obtain ⟨cause, hthrow⟩ := addLoop_violates frames hviolates
      exact ⟨.inl he, _, hthrow⟩
  | cons f fs ih =>
    rw [List.forall_mem_cons] at hfits
    have hsplit : buffer.drop offset = f.encoded ++ (encodeAll fs ++ rest) := by
      rw [h]
      simp [encodeAll]
    have hdrop : buffer.drop (offset + f.encoded.length) = encodeAll fs ++ rest := by
      rw [← List.drop_drop, hsplit, List.drop_left]
    rw [addLoop_encoded frames hfits.1 hsplit]
    by_cases hempty : f.payload = []
    · have hreads : Reads f (⟨f.type, c.empty⟩ : Frame c) := ⟨rfl, .inl ⟨hempty, rfl⟩⟩
      rw [if_pos hempty, refuses_cons hreads]
      exact ih hfits.2 _ _ hdrop
    · rw [if_neg hempty]
      cases hpayload : decodePayload (c := c) f.payload with
      | ok payload =>
        have hreads : Reads f (⟨f.type, payload⟩ : Frame c) := ⟨rfl, .inr ⟨hempty, hpayload⟩⟩
        rw [refuses_cons hreads]
        exact ih hfits.2 _ _ hdrop
      | error thrown =>
        right
        refine ⟨.inr ⟨f, List.mem_cons_self, ?_⟩, thrown, rfl⟩
        rintro g ⟨-, ⟨hnone, -⟩ | ⟨-, hok⟩⟩
        · exact hempty hnone
        · rw [hpayload] at hok
          cases hok

/-- `add` over a buffer that splits so keeps the rest, or it throws and keeps everything. -/
theorem add_outcome {buffer chunk rest : Bytes} {fs : List Protocol.Frame} {e : DecodeError}
    (h : Splits (buffer ++ chunk) fs rest e) :
    (¬ Refuses c fs e ∧ ∃ gs, FrameDecoder.add (c := c) ⟨buffer⟩ chunk = (⟨rest⟩, .ok gs)) ∨
      (Refuses c fs e ∧ ∃ thrown,
        FrameDecoder.add (c := c) ⟨buffer⟩ chunk = (⟨buffer ++ chunk⟩, .error thrown)) := by
  unfold FrameDecoder.add
  rcases addLoop_outcome (c := c) (buffer ++ chunk) h.fits h.ends 0 [] h.stream_eq with
    ⟨hgood, gs, offset, hloop, hdrop⟩ | ⟨hbad, thrown, hloop⟩
  · left
    simp only [hloop, hdrop]
    exact ⟨hgood, gs, rfl⟩
  · right
    simp only [hloop]
    exact ⟨hbad, thrown, rfl⟩

/-- What is refused stays refused, whatever follows. -/
theorem Refuses.append {stream rest more rest' : Bytes} {fs fs' : List Protocol.Frame}
    {e e' : DecodeError} (h : Refuses c fs e) (hsplit : Splits stream fs rest e)
    (hmore : Splits (stream ++ more) fs' rest' e') : Refuses c fs' e' := by
  by_cases he : e = .none
  · subst he
    obtain ⟨f, hf, hunread⟩ := h.resolve_left fun hne => hne rfl
    obtain ⟨others, rest'', e'', hothers⟩ := exists_splits (rest ++ more)
    obtain ⟨rfl, -, -⟩ := hmore.unique (hsplit.append hothers)
    exact .inr ⟨f, List.mem_append_left _ hf, hunread⟩
  · obtain ⟨-, -, rfl⟩ := hmore.unique (hsplit.append_refused he more)
    exact .inl he

/-- Once it has thrown, `add` throws and keeps everything. -/
theorem add_refused (chunks : List Bytes) {buffer rest : Bytes} {fs : List Protocol.Frame}
    {e : DecodeError} (hsplit : Splits buffer fs rest e) (h : Refuses c fs e) :
    (∀ o ∈ outputsFrom c ⟨buffer⟩ chunks, o.isOk = false) ∧
      final (FrameDecoder.add (c := c)) ⟨buffer⟩ chunks = ⟨buffer ++ chunks.flatten⟩ := by
  induction chunks generalizing buffer rest fs e with
  | nil => simp [outputsFrom, trace]
  | cons chunk more ih =>
    obtain ⟨fs', rest', e', hmore⟩ := exists_splits (buffer ++ chunk)
    have hbad := h.append hsplit hmore
    rcases add_outcome (c := c) hmore with ⟨hgood, -⟩ | ⟨-, thrown, hadd⟩
    · exact absurd hbad hgood
    · obtain ⟨houtputs, hfinal⟩ := ih hmore hbad
      unfold outputsFrom trace
      rw [hadd, List.map_cons, List.forall_mem_cons, final_cons, hadd, hfinal]
      refine ⟨⟨rfl, houtputs⟩, ?_⟩
      rw [List.flatten_cons, List.append_assoc]

/-- How a decoder goes on that has kept so much of its chunks: nothing is refused, or from some chunk on
everything is refused and kept. -/
def Keeps (c : Convert) (buffer : Bytes) (chunks : List Bytes) : Prop :=
  let outputs := outputsFrom c ⟨buffer⟩ chunks
  let kept := (final (FrameDecoder.add (c := c)) ⟨buffer⟩ chunks).buffer
  ((∀ o ∈ outputs, o.isOk = true) ∧ kept.length < 4 + 2 ^ 20) ∨
    ∃ before chunk after held, chunks = before ++ chunk :: after ∧ held.length < 4 + 2 ^ 20 ∧
      (∀ o ∈ outputs.take before.length, o.isOk = true) ∧
      (∀ o ∈ outputs.drop before.length, o.isOk = false) ∧ kept = held ++ chunk ++ after.flatten

theorem outputsFrom_cons (d : FrameDecoder) (chunk : Bytes) (rest : List Bytes) :
    outputsFrom c d (chunk :: rest) = (d.add chunk).2 :: outputsFrom c (d.add (c := c) chunk).1 rest := rfl

theorem keeps_short (chunks : List Bytes) {buffer : Bytes} (hshort : Short buffer) :
    Keeps c buffer chunks := by
  induction chunks generalizing buffer with
  | nil => exact .inl ⟨by simp [outputsFrom, trace], hshort.length_lt⟩
  | cons chunk more ih =>
    obtain ⟨fs, rest, e, hsplit⟩ := exists_splits (buffer ++ chunk)
    unfold Keeps
    rw [outputsFrom_cons, final_cons]
    rcases add_outcome (c := c) hsplit with ⟨hgood, gs, hadd⟩ | ⟨hbad, thrown, hadd⟩
    · obtain rfl : e = .none := by
        by_contra he
        exact hgood (.inl he)
      rw [hadd]
      rcases ih hsplit.short with ⟨hall, hless⟩ | ⟨before, chunk', after, held, rfl, hheld, hok, hbad, hkept⟩
      · exact .inl ⟨List.forall_mem_cons.mpr ⟨rfl, hall⟩, hless⟩
      · refine .inr ⟨chunk :: before, chunk', after, held, rfl, hheld, ?_, hbad, hkept⟩
        rw [List.length_cons, List.take_succ_cons, List.forall_mem_cons]
        exact ⟨rfl, hok⟩
    · obtain ⟨houtputs, hfinal⟩ := add_refused (c := c) more hsplit hbad
      rw [hadd]
      refine .inr ⟨[], chunk, more, buffer, rfl, hshort.length_lt, by simp, ?_, congrArg _ hfinal⟩
      rw [List.length_nil, List.drop_zero, List.forall_mem_cons]
      exact ⟨rfl, houtputs⟩

/-- **What the client keeps.** Over any chunks, as long as no call of `add` has thrown the decoder keeps
less than the largest frame and its header. From the first call that throws on every call throws, and
the decoder keeps every byte that comes, whatever it is. -/
theorem add_keeps (c : Convert) (chunks : List Bytes) : Keeps c [] chunks :=
  keeps_short chunks (.inl (by decide))

end Client

end OakBarrels
