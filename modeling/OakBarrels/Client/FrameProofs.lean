import OakBarrels.Client.Frame
import OakBarrels.Protocol.Splits
import OakBarrels.Json.RoundTrip
import OakBarrels.Lib.Pointwise
import OakBarrels.Lib.Utf8

/-!
# Both decoders read both encoders

The client writes the same bytes for a frame as the station, and its decoder takes the same frames
from a stream, however the stream is cut.
-/

open Octets Runs OakBarrels.Protocol

namespace OakBarrels.Client

variable {c : Convert}

/-! ## The two tables of types -/

theorem typeCode_eq (type : MessageType) : typeCode type = type.code := by
  cases type <;> rfl

theorem tryFromCode_eq (code : Byte) : tryFromCode code = MessageType.ofCode code := by
  simp only [tryFromCode, MessageType.ofCode, typeCode_eq]

/-! ## Encoding -/

theorem encode_eq_none (f : Frame c) : f.encode = none ↔ 2 ^ 20 < 1 + f.body.length := by
  unfold Frame.encode
  simp only [show maxControlFrameBytes = 2 ^ 20 from rfl]
  split <;> simp_all

def Frame.wire (f : Frame c) : Protocol.Frame := ⟨f.type, f.body⟩

theorem encode_of_fits (f : Frame c) (h : f.wire.Fits) : f.encode = some f.wire.encoded := by
  have hlen : UInt32.ofNat (1 + f.body.length) = 1 + UInt32.ofNat f.body.length := by
    rw [UInt32.ofNat_add]
    rfl
  unfold Frame.encode
  simp only [show maxControlFrameBytes = 2 ^ 20 from rfl]
  rw [if_neg]
  · simp only [hlen, typeCode_eq, Protocol.Frame.encoded, Frame.wire, encodeFrame]
  · unfold Protocol.Frame.Fits Frame.wire at h
    simp only at h
    omega

/-! ## Decoding -/

/-- What the client makes of a frame on the wire. -/
def Reads (f : Protocol.Frame) (g : Frame c) : Prop :=
  g.type = f.type ∧ ((f.payload = [] ∧ g.payload = c.empty) ∨
    (f.payload ≠ [] ∧ decodePayload f.payload = .ok g.payload))

theorem exists_payload {body : Bytes} (h : (decodePayload (c := c) body).isOk = true) :
    ∃ payload : c.Map, decodePayload body = .ok payload := by
  cases hm : decodePayload (c := c) body with
  | ok payload => exact ⟨payload, rfl⟩
  | error e =>
    rw [hm] at h
    cases h

theorem exists_reads (c : Convert) (wire : Protocol.Frame) (hne : wire.payload ≠ [])
    (h : (decodePayload (c := c) wire.payload).isOk = true) : ∃ frame : Frame c, Reads wire frame := by
  obtain ⟨payload, hpayload⟩ := exists_payload h
  exact ⟨⟨wire.type, payload⟩, rfl, .inr ⟨hne, hpayload⟩⟩

theorem addLoop_short {buffer : Bytes} {offset : Nat} {frames : List (Frame c)}
    (h : Short (buffer.drop offset)) : addLoop buffer offset frames = .ok (frames, offset) := by
  rw [addLoop]
  unfold Short announced at h
  rw [List.length_drop] at h
  simp only [show maxControlFrameBytes = 2 ^ 20 from rfl]
  split
  · rfl
  rw [if_neg (by omega), if_neg (by omega), if_pos (by omega)]

/-- The loop at a frame that is complete. -/
theorem addLoop_encoded {buffer rest : Bytes} {offset : Nat} (frames : List (Frame c))
    {f : Protocol.Frame} (hf : f.Fits) (h : buffer.drop offset = f.encoded ++ rest) :
    addLoop buffer offset frames =
      if f.payload = [] then
        addLoop buffer (offset + f.encoded.length) (frames ++ [⟨f.type, c.empty⟩])
      else
        match decodePayload f.payload with
        | .error thrown => .error thrown
        | .ok payload =>
          addLoop buffer (offset + f.encoded.length) (frames ++ [⟨f.type, payload⟩]) := by
  obtain ⟨h4, hann, hlen, hcode⟩ := encoded_append_length f hf rest
  obtain ⟨b0, b1, b2, b3, henc, -⟩ := encoded_eq f hf
  have henclen : f.encoded.length = 5 + f.payload.length := by
    rw [henc]
    simp
    omega
  unfold Protocol.Frame.Fits at hf
  have hblen : buffer.length - offset = (f.encoded ++ rest).length := by
    rw [← h, List.length_drop]
  have htype : (buffer.drop (offset + 4)).headD 0 = f.type.code := by
    rw [← List.drop_drop, h, henc]
    rfl
  have hbody : (buffer.take (offset + 4 + (f.payload.length + 1))).drop (offset + 5) =
      f.payload := by
    rw [List.drop_take, ← List.drop_drop, h, henc,
      show offset + 4 + (f.payload.length + 1) - (offset + 5) = f.payload.length by omega]
    exact List.take_left
  have hlength : (readLength (f.encoded ++ rest)).toNat = f.payload.length + 1 := hann
  have hnext : offset + 4 + (f.payload.length + 1) = offset + f.encoded.length := by omega
  have hempty : offset + 5 = offset + 4 + (f.payload.length + 1) ↔ f.payload = [] := by
    rw [← List.length_eq_zero_iff]
    omega
  rw [hnext] at hbody hempty
  rw [addLoop]
  simp only [show maxControlFrameBytes = 2 ^ 20 from rfl, h, hlength, htype, hnext, hbody,
    tryFromCode_eq, ofCode_code, hempty]
  refine (if_neg (by omega)).trans ?_
  refine (if_neg (by omega)).trans ?_
  refine (if_neg (by omega)).trans ?_
  refine (if_neg (by omega)).trans ?_
  split <;> rfl

theorem addLoop_frame {buffer rest : Bytes} {offset : Nat} {frames : List (Frame c)}
    {f : Protocol.Frame} {g : Frame c} (hf : f.Fits) (hg : Reads f g)
    (h : buffer.drop offset = f.encoded ++ rest) :
    addLoop buffer offset frames =
      addLoop buffer (offset + f.encoded.length) (frames ++ [g]) := by
  rw [addLoop_encoded frames hf h]
  obtain ⟨htype, hpayload⟩ := hg
  obtain ⟨type, payload⟩ := g
  simp only at htype hpayload
  subst htype
  rcases hpayload with ⟨hnil, rfl⟩ | ⟨hne, hdecode⟩
  · rw [if_pos hnil]
  · rw [if_neg hne, hdecode]

/-- The loop goes over the frames of what it has, and comes to the rest. -/
theorem addLoop_frames (buffer : Bytes) {rest : Bytes} {fs : List Protocol.Frame}
    {gs : List (Frame c)} (hfits : ∀ f ∈ fs, f.Fits) (hreads : List.Forall₂ Reads fs gs) (offset : Nat)
    (frames : List (Frame c)) (h : buffer.drop offset = encodeAll fs ++ rest) :
    ∃ offset', addLoop buffer offset frames = addLoop buffer offset' (frames ++ gs) ∧
      buffer.drop offset' = rest := by
  induction hreads generalizing offset frames with
  | nil => exact ⟨offset, by rw [List.append_nil], h⟩
  | @cons f g fs gs hfg _ ih =>
    rw [List.forall_mem_cons] at hfits
    have hsplit : buffer.drop offset = f.encoded ++ (encodeAll fs ++ rest) := by
      rw [h]
      simp [encodeAll]
    have hdrop : buffer.drop (offset + f.encoded.length) = encodeAll fs ++ rest := by
      rw [← List.drop_drop, hsplit, List.drop_left]
    obtain ⟨offset', hloop, hrest⟩ := ih hfits.2 _ (frames ++ [g]) hdrop
    refine ⟨offset', ?_, hrest⟩
    rw [addLoop_frame hfits.1 hfg hsplit, hloop, List.append_assoc]
    rfl

/-- What `add` does with a chunk that shows no violation: the frames that are complete come out, and
the decoder keeps the rest. -/
theorem add_live {buffer chunk rest : Bytes} {fs : List Protocol.Frame} {gs : List (Frame c)}
    (hreads : List.Forall₂ Reads fs gs) (hsplit : Splits (buffer ++ chunk) fs rest .none) :
    FrameDecoder.add (c := c) ⟨buffer⟩ chunk = (⟨rest⟩, .ok gs) := by
  obtain ⟨offset, hloop, hdrop⟩ :=
    addLoop_frames (buffer ++ chunk) hsplit.fits hreads 0 [] hsplit.stream_eq
  have hshort := hsplit.short
  rw [← hdrop] at hshort
  unfold FrameDecoder.add
  simp only [hloop, List.nil_append, addLoop_short hshort, hdrop]

/-! ## Whole streams -/

/-- A chunk of a good stream is added. -/
theorem add_spec {d : FrameDecoder} {chunk more : Bytes} {fs : List Protocol.Frame}
    {gs : List (Frame c)} (hfits : ∀ f ∈ fs, f.Fits) (hreads : List.Forall₂ Reads fs gs)
    (h : d.buffer ++ chunk ++ more = encodeAll fs) :
    ∃ k d', d.add chunk = (d', .ok (gs.take k)) ∧ d'.buffer ++ more = encodeAll (fs.drop k) ∧
      Short d'.buffer := by
  have hwhole : Splits (d.buffer ++ chunk ++ more) fs [] .none := h ▸ splits_encodeAll hfits
  obtain ⟨hs, rest, e, hsplit⟩ := exists_splits (d.buffer ++ chunk)
  obtain rfl : e = .none := by
    by_contra he
    exact he ((hsplit.append_refused he more).unique hwhole).2.2
  obtain ⟨others, rest', e', hothers⟩ := exists_splits (rest ++ more)
  obtain ⟨rfl, rfl, -⟩ := (hsplit.append hothers).unique hwhole
  have htaken := List.forall₂_take hs.length hreads
  rw [List.take_left] at htaken
  refine ⟨hs.length, ⟨rest⟩, add_live htaken hsplit, ?_, hsplit.short⟩
  rw [List.drop_left, hothers.stream_eq, List.append_nil]

theorem add_one {wire : Protocol.Frame} {frame : Frame c} (hfits : wire.Fits)
    (hreads : Reads wire frame) :
    FrameDecoder.add (c := c) ⟨[]⟩ wire.encoded = (⟨[]⟩, .ok [frame]) := by
  have hstream : [] ++ wire.encoded ++ [] = encodeAll [wire] := by simp [encodeAll]
  obtain ⟨k, ⟨buffer⟩, hadd, hmore, hshort⟩ := add_spec (d := ⟨[]⟩) (by simpa using hfits)
    (.cons hreads .nil) hstream
  rw [List.append_nil] at hmore
  simp only at hmore hshort
  cases k with
  | zero =>
    have henc : buffer = wire.encoded ++ [] := by simpa [encodeAll] using hmore
    exact absurd (henc ▸ hshort) (not_short_encoded wire hfits [])
  | succ k =>
    obtain rfl : buffer = [] := by simpa [encodeAll] using hmore
    simpa using hadd

/-- All chunks of a good stream are added: every frame comes out, and nothing is left. -/
theorem run_spec (chunks : List Bytes) {d : FrameDecoder} {fs : List Protocol.Frame}
    {gs : List (Frame c)} (hfits : ∀ f ∈ fs, f.Fits) (hreads : List.Forall₂ Reads fs gs)
    (hshort : Short d.buffer) (h : d.buffer ++ chunks.flatten = encodeAll fs) :
    ∃ gss : List (List (Frame c)), (trace FrameDecoder.add d chunks).map Prod.snd = gss.map .ok ∧ gss.flatten = gs ∧
      (final (FrameDecoder.add (c := c)) d chunks).buffer = [] := by
  induction chunks generalizing d fs gs with
  | nil =>
    have hbuf : d.buffer = encodeAll fs := by simpa using h
    cases hreads with
    | nil => exact ⟨[], rfl, rfl, by simpa [encodeAll] using hbuf⟩
    | @cons f g fs gs _ _ =>
      refine absurd hshort ?_
      rw [hbuf]
      simpa [encodeAll] using
        not_short_encoded f (hfits f List.mem_cons_self) (fs.flatMap Frame.encoded)
  | cons chunk rest ih =>
    rw [List.flatten_cons, ← List.append_assoc] at h
    obtain ⟨k, d', hadd, hmore, hshort'⟩ := add_spec hfits hreads h
    obtain ⟨gss, hgss, hflat, hend⟩ := ih (fun f hf => hfits f (List.mem_of_mem_drop hf))
      (List.forall₂_drop k hreads) hshort' hmore
    refine ⟨gs.take k :: gss, ?_, ?_, ?_⟩
    · simp only [trace, List.map_cons, hadd, hgss]
    · rw [List.flatten_cons, hflat, List.take_append_drop]
    · rw [final_cons, hadd]
      exact hend

/-! ## Frames of both sides -/

inductive Sent (c : Convert)
  | cpp (type : MessageType) (payloadJson : Bytes)
  | dart (f : Frame c)

namespace Sent

/-- The bytes it is sent as; nothing when the encoder throws. -/
def encode : Sent c → Option Bytes
  | .cpp type payloadJson => some (encodeFrame type payloadJson)
  | .dart f => f.encode

def frame : Sent c → Protocol.Frame
  | .cpp type payloadJson => ⟨type, payloadJson⟩
  | .dart f => f.wire

/-- The body is within the budget, and the payload is nothing or the text of an object. -/
def Valid (s : Sent c) : Prop :=
  s.frame.Fits ∧ match s with
    | .cpp _ payloadJson =>
      payloadJson = [] ∨ ∃ m : c.Map, decodePayload payloadJson = .ok m
    | .dart _ => True

def ReceivedAs : Sent c → Frame c → Prop
  | .cpp type payloadJson, g => Reads ⟨type, payloadJson⟩ g
  | .dart f, g => g = f

end Sent

/-- `dart:convert` reads back what it wrote for a map. -/
structure Convert.RoundTrips (c : Convert) (m : c.Map) : Prop where
  empty : c.isEmpty m = true → m = c.empty
  text : c.utf8Encode (c.jsonEncode m) ≠ []
  utf8 : c.utf8Decode (c.utf8Encode (c.jsonEncode m)) = some (c.jsonEncode m)
  json : c.jsonDecode (c.jsonEncode m) = .map m

/-- `dart:convert` decodes what is UTF-8, and makes a map of the text of an object. -/
structure Convert.ReadsJson (c : Convert) : Prop where
  utf8 : ∀ bytes, Utf8.ValidUtf8 bytes → ∃ text, c.utf8Decode bytes = some text
  object : ∀ bytes text members, Utf8.ValidUtf8 bytes → c.utf8Decode bytes = some text →
    Json.parse bytes = some (.object members) → ∃ m, c.jsonDecode text = .map m

theorem Convert.ReadsJson.reads (h : c.ReadsJson) {wire : Protocol.Frame}
    (hpayload : wire.payload = [] ∨ Utf8.ValidUtf8 wire.payload ∧
      ∃ members, Json.parse wire.payload = some (.object members)) :
    ∃ frame : Frame c, Reads wire frame := by
  by_cases hnil : wire.payload = []
  · exact ⟨⟨wire.type, c.empty⟩, rfl, .inl ⟨hnil, rfl⟩⟩
  · obtain ⟨hvalid, members, hparse⟩ := hpayload.resolve_left hnil
    obtain ⟨text, htext⟩ := h.utf8 _ hvalid
    obtain ⟨m, hm⟩ := h.object _ text members hvalid htext hparse
    refine ⟨⟨wire.type, m⟩, rfl, .inr ⟨hnil, ?_⟩⟩
    rw [decodePayload, htext]
    simp only [hm]

theorem reads_wire {f : Frame c} (h : c.RoundTrips f.payload) : Reads f.wire f := by
  refine ⟨rfl, ?_⟩
  unfold Frame.wire Frame.body
  by_cases hempty : c.isEmpty f.payload = true
  · exact Or.inl ⟨by simp [hempty], h.empty hempty⟩
  · refine Or.inr ⟨by simpa [hempty] using h.text, ?_⟩
    simp only [hempty, Bool.false_eq_true, if_false]
    rw [decodePayload, h.utf8]
    simp only [h.json]

theorem encode_of_valid {s : Sent c} (h : s.Valid) : s.encode = some s.frame.encoded := by
  cases s with
  | cpp type payloadJson => rfl
  | dart f => exact encode_of_fits f h.1

theorem received_of_valid {s : Sent c} (h : s.Valid)
    (hconv : ∀ f, s = .dart f → c.RoundTrips f.payload) :
    ∃ g, s.ReceivedAs g ∧ Reads s.frame g := by
  cases s with
  | cpp type payloadJson =>
    rcases h.2 with rfl | ⟨m, hm⟩
    · exact ⟨⟨type, c.empty⟩, ⟨rfl, Or.inl ⟨rfl, rfl⟩⟩, rfl, Or.inl ⟨rfl, rfl⟩⟩
    · by_cases hnil : payloadJson = []
      · exact ⟨⟨type, c.empty⟩, ⟨rfl, Or.inl ⟨hnil, rfl⟩⟩, rfl, Or.inl ⟨hnil, rfl⟩⟩
      · exact ⟨⟨type, m⟩, ⟨rfl, Or.inr ⟨hnil, hm⟩⟩, rfl, Or.inr ⟨hnil, hm⟩⟩
  | dart f => exact ⟨f, rfl, reads_wire (hconv f rfl)⟩

/-- **Wire compatibility.** Frames that fit the budget, each encoded on either side, come out of
both decoders in order and unchanged, however the stream is cut, and nothing is left over; and the
client's encoder throws exactly on the frames that do not fit. -/
theorem wire_compatible (sent : List (Sent c)) (hvalid : ∀ s ∈ sent, s.Valid)
    (hconv : ∀ f, Sent.dart f ∈ sent → c.RoundTrips f.payload) :
    ∃ encodings : List Bytes, sent.map Sent.encode = encodings.map some ∧
      (∀ ops, Protocol.FrameDecoder.fed ops = encodings.flatten →
        Protocol.FrameDecoder.Drained ops →
        Protocol.FrameDecoder.frames ops = sent.map Sent.frame ∧
          Protocol.FrameDecoder.after ops = .fresh) ∧
      (∀ chunks, chunks.flatten = encodings.flatten →
        ∃ received : List (List (Frame c)),
          (trace FrameDecoder.add ⟨[]⟩ chunks).map Prod.snd = received.map .ok ∧
          List.Forall₂ Sent.ReceivedAs sent received.flatten ∧
          final (FrameDecoder.add (c := c)) ⟨[]⟩ chunks = ⟨[]⟩) ∧
      ∀ f : Frame c, f.encode = none ↔ 2 ^ 20 < 1 + f.body.length := by
  have hwire : (sent.map fun s => s.frame.encoded).flatten = encodeAll (sent.map Sent.frame) := by
    simp [encodeAll, List.flatMap, Function.comp_def]
  have hall : ∀ f ∈ sent.map Sent.frame, f.Fits := by
    intro f hf
    obtain ⟨s, hs, rfl⟩ := List.mem_map.mp hf
    exact (hvalid s hs).1
  refine ⟨sent.map fun s => s.frame.encoded, ?_, ?_, ?_, encode_eq_none⟩
  · rw [List.map_map]
    exact List.map_congr_left fun s hs => encode_of_valid (hvalid s hs)
  · intro ops hfed hdrained
    exact Protocol.FrameDecoder.drained_frames hall (hfed.trans hwire) hdrained
  · intro chunks hchunks
    obtain ⟨gs, hgs⟩ : ∃ gs : List (Frame c),
        List.Forall₂ (fun s g => s.ReceivedAs g ∧ Reads s.frame g) sent gs := by
      refine Pointwise.exists_forall₂.mpr fun s hs => ?_
      exact received_of_valid (hvalid s hs) fun f hf => hconv f (hf ▸ hs)
    have hreceived : List.Forall₂ Sent.ReceivedAs sent gs := hgs.imp fun _ _ h => h.1
    have hreads : List.Forall₂ Reads (sent.map Sent.frame) gs :=
      List.forall₂_map_left_iff.mpr (hgs.imp fun _ _ h => h.2)
    obtain ⟨received, houts, hflat, hend⟩ := run_spec chunks (d := ⟨[]⟩) hall hreads
      (Or.inl (by simp)) (by simpa [hwire] using hchunks)
    refine ⟨received, houts, by rw [hflat]; exact hreceived, ?_⟩
    generalize final (FrameDecoder.add (c := c)) ⟨[]⟩ chunks = d at *
    obtain ⟨buffer⟩ := d
    simp only at hend
    rw [hend]

/-- A converter over the station's own JSON, for texts of ASCII characters. -/
def asciiConvert : Convert where
  Map := List (Bytes × Json.Value)
  Text := Bytes
  empty := []
  isEmpty := List.isEmpty
  jsonEncode m := (Json.Value.object m).dump
  jsonDecode text :=
    match Json.parse text with
    | none => .malformed
    | some (.object m) => .map m
    | some _ => .notMap
  utf8Encode text := text
  utf8Decode bytes := some bytes

theorem asciiConvert_roundTrips {m : List (Bytes × Json.Value)}
    (h : Json.parse (Json.Value.object m).dump = some (.object m)) : asciiConvert.RoundTrips m where
  empty hempty := List.isEmpty_iff.mp hempty
  text := by simp [asciiConvert, Json.Value.dump, Json.writeValue]
  utf8 := rfl
  json := by simp only [asciiConvert, h]

theorem roundTrips_empty : asciiConvert.RoundTrips [] := by
  have hdistinct : (Json.Value.object []).Distinct := .object (by simp) (by simp)
  obtain ⟨w, hw, -, halike⟩ := Json.parse_dump_alike hdistinct (by decide)
  refine asciiConvert_roundTrips ?_
  rw [hw]
  cases w with
  | object ms =>
    cases ms with
    | nil => rfl
    | cons m ms => exact halike.elim
  | _ => exact halike.elim

theorem roundTrips_string (key s : Bytes) : asciiConvert.RoundTrips [(key, .string s)] := by
  have hdistinct : (Json.Value.object [(key, .string s)]).Distinct :=
    .object (by simp) (by simp only [List.mem_singleton]; rintro m rfl; exact .string _)
  have hheight : (Json.Value.object [(key, .string s)]).height ≤ Json.kMaxParseDepth := by
    change 1 ≤ 64
    decide
  obtain ⟨w, hw, -, halike⟩ := Json.parse_dump_alike hdistinct hheight
  refine asciiConvert_roundTrips ?_
  rw [hw]
  cases w with
  | object ms =>
    rcases ms with - | ⟨⟨k, v⟩, - | ⟨m, ms⟩⟩
    · exact halike.elim
    · obtain ⟨rfl, h, -⟩ := halike
      cases v with
      | string v =>
        obtain rfl : v = s := h
        rfl
      | _ => exact h.elim
    · exact halike.2.2.elim
  | _ => exact halike.elim

theorem wire_compatible_three :
    let kind : Bytes × Json.Value := (ascii "kind", .string (ascii "a"))
    let sent : List (Sent asciiConvert) :=
      [.cpp .hello (ascii "\x7b\"revisions\":[1]\x7d"), .dart ⟨.bye, []⟩, .dart ⟨.open, [kind]⟩]
    ∃ encodings : List Bytes, sent.map Sent.encode = encodings.map some ∧
      (∀ ops, Protocol.FrameDecoder.fed ops = encodings.flatten →
        Protocol.FrameDecoder.Drained ops →
        Protocol.FrameDecoder.frames ops = sent.map Sent.frame ∧
          Protocol.FrameDecoder.after ops = .fresh) ∧
      (∀ chunks, chunks.flatten = encodings.flatten →
        ∃ received : List (List (Frame asciiConvert)),
          (trace FrameDecoder.add ⟨[]⟩ chunks).map Prod.snd = received.map .ok ∧
          List.Forall₂ Sent.ReceivedAs sent received.flatten ∧
          final (FrameDecoder.add (c := asciiConvert)) ⟨[]⟩ chunks = ⟨[]⟩) ∧
      ∀ f : Frame asciiConvert, f.encode = none ↔ 2 ^ 20 < 1 + f.body.length := by
  intro kind sent
  apply wire_compatible sent
  · intro s hs
    simp only [sent, List.mem_cons, List.not_mem_nil, or_false] at hs
    rcases hs with rfl | rfl | rfl
    · have hobject : (decodePayload (c := asciiConvert)
          (ascii "\x7b\"revisions\":[1]\x7d")).isOk = true := by decide +kernel
      exact ⟨by unfold Protocol.Frame.Fits; decide, Or.inr (exists_payload hobject)⟩
    · exact ⟨by unfold Protocol.Frame.Fits; decide, trivial⟩
    · exact ⟨by unfold Protocol.Frame.Fits; decide, trivial⟩
  · intro f hf
    simp only [sent, List.mem_cons, List.not_mem_nil, or_false, Sent.dart.injEq, reduceCtorEq,
      false_or] at hf
    rcases hf with rfl | rfl
    · exact roundTrips_empty
    · exact roundTrips_string _ _

end OakBarrels.Client
