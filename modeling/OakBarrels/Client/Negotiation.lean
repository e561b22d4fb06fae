import OakBarrels.Client.Pairing
import OakBarrels.Revisions

/-!
# The negotiation from both ends

A Dart host offers its revisions, the station answers, and both record what was agreed.
-/

open Octets Binary64 Decimal Conversion OakBarrels.Protocol OakBarrels.Json

namespace OakBarrels.Client

/-! ## What the host writes and reads -/

def commaSeparated : List Bytes → Bytes
  | [] => []
  | [t] => t
  | t :: u :: rest => t ++ ch ',' :: commaSeparated (u :: rest)

/-- What `jsonEncode` writes for `{'revisions': revisions}`. -/
def helloText (revisions : List Int) : Bytes :=
  ascii "\x7b\"revisions\":[" ++ commaSeparated (revisions.map stdToString) ++ ascii "]\x7d"

def refusalText : Bytes := (World.errorPayload .noCommonRevision).dump

/-- The maps of a negotiation: the one that is written, and the fields of the one that is read. -/
structure Host (c : Convert) extends Fields c where
  revisions : List Int → c.Map

variable {c : Convert}

/-- What `dart:convert` does with the three texts of a negotiation. -/
structure Host.Documented (host : Host c) (revisions : List Int) : Prop where
  nonempty : c.isEmpty (host.revisions revisions) = false
  encodes : c.utf8Encode (c.jsonEncode (host.revisions revisions)) = helloText revisions
  acknowledges : ∃ m, decodePayload (c := c) World.ackText = .ok m ∧
    host.int m (ascii "revision") = some 1
  refuses : ∃ m, decodePayload (c := c) refusalText = .ok m

def Host.hello (host : Host c) (revisions : Finset Int) : Frame c :=
  ⟨.hello, host.revisions (revisions.sort (· ≤ ·))⟩

/-! ## The document of the offer -/

def helloDoc (revisions : List Int) : Doc :=
  .object [(ascii "revisions", .array (revisions.map fun n => .number (integral n)))]

theorem commaSeparated_reads (n : Int) (rest : List Int) :
    Json.Reads (commaSeparated ((n :: rest).map stdToString))
      (.items ((n :: rest).map fun n => .number (integral n))) := by
  induction rest generalizing n with
  | nil =>
    have hread := Reads.item (Reads.number (integral_spelled n)) whitespace_nil
    rw [List.append_nil, integral_text] at hread
    exact hread
  | cons m rest ih =>
    have hread := Reads.items (Reads.number (integral_spelled n)) whitespace_nil whitespace_nil (ih m)
    rw [List.append_nil, integral_text] at hread
    simpa [commaSeparated, ch] using hread

theorem numbers_depth (revisions : List Int) :
    itemsDepth (revisions.map fun n => Doc.number (integral n)) ≤ 1 := by
  induction revisions with
  | nil => simp [itemsDepth]
  | cons n rest ih => simp [itemsDepth, Doc.height, ih]

theorem helloText_readAs (revisions : List Int) :
    ReadAs (helloText revisions) (helloDoc revisions) := by
  have harray : Json.Reads (0x5b :: commaSeparated (revisions.map stdToString) ++ [0x5d])
      (.value (.array (revisions.map fun n => .number (integral n)))) := by
    cases revisions with
    | nil => exact Reads.emptyArray whitespace_nil
    | cons n rest =>
      have hread := Reads.array whitespace_nil (commaSeparated_reads n rest)
      simpa using hread
  have hname : IsName (ascii "\"revisions\":") (ascii "revisions") :=
    ⟨writeEscapedString (ascii "revisions"), [], [], writeEscapedString_isString _, whitespace_nil,
      whitespace_nil, by decide⟩
  have hobject := Reads.object whitespace_nil (Reads.member hname harray whitespace_nil)
  have hopen : ascii "\x7b\"revisions\":[" = 0x7b :: ascii "\"revisions\":" ++ [0x5b] := by decide
  have hclose : ascii "]\x7d" = [0x5d, 0x7d] := by decide
  have hdepth := numbers_depth revisions
  unfold ReadAs
  rw [if_neg (by simp [helloText, hopen])]
  refine ⟨⟨[], _, [], whitespace_nil, hobject, whitespace_nil, ?_⟩, ?_⟩
  · simp [helloText, hopen, hclose]
  · simp only [helloDoc, Doc.height, membersDepth, kMaxParseDepth]
    omega

theorem helloDoc_offered (revisions : List Int) :
    (helloDoc revisions).offered = some (revisions.map integral) := by
  have hmember : (helloDoc revisions).member (ascii "revisions")
      = some (.array (revisions.map fun n => .number (integral n))) := by
    simp [helloDoc, Doc.member]
  unfold Doc.offered
  rw [hmember]
  simp only [List.filterMap_map, Function.comp_def, Doc.number?, List.filterMap_eq_map']

theorem mem_numbers_integral (revisions : List Int) :
    (1 : ℚ) ∈ numbers (revisions.map integral) ↔ 1 ∈ revisions := by
  have hvalue : ∀ n : Int, (integral n).value = 1 ↔ n = 1 := by
    intro n
    rw [integral_value]
    norm_cast
  simp [numbers, hvalue]

/-! ## One exchange -/

section

variable {σ : Type} (unrepresentable : Unrepresentable) (backend : EngineBackend σ)

def stationAfter (w : World σ) (ops : List Protocol.FrameDecoder.Op) : World σ :=
  (Protocol.FrameDecoder.frames ops).foldl
    (fun w frame => (w.handle unrepresentable backend frame).2) w

def written (w w' : World σ) : Bytes :=
  ((w'.log.drop w.log.length).filterMap Event.frame?).flatten

/-- However much of the request reaches the station and of its answer the host, and in whatever
pieces: when `negotiate` returns, what both sides have recorded was offered. -/
def HostAgrees (host : Host c) (w : World σ) (revisions : Finset Int) : Prop :=
  let asked := (Relay.attached c).request host.toFields .negotiate (host.hello revisions) false
  ∀ (bytes : Bytes) (ops : List Protocol.FrameDecoder.Op) (chunks : List Bytes),
    let w' := stationAfter unrepresentable backend w ops
    let relay := chunks.foldl (Relay.onBytes host.toFields) asked.1
    asked.2 = some bytes → Protocol.FrameDecoder.fed ops <+: bytes →
    chunks.flatten <+: written w w' →
    ∀ arrival response selected,
      .completed .negotiate arrival response (.revision selected) ∈ relay.outcomes →
      selected ∈ revisions ∧ relay.revision = some selected ∧
        w'.session.revision.toInt ∈ revisions

/-- One is offered, or no revision is taken for it, or the request does not fit a frame. -/
def NoHostAlias (revisions : Finset Int) : Prop :=
  1 ∈ revisions ∨ (∀ n ∈ revisions, ¬ NarrowsToOne unrepresentable (.ofInt n)) ∨
    2 ^ 20 < 1 + (helloText (revisions.sort (· ≤ ·))).length

end

/-! ### The station's end -/

theorem frames_of_prefix {wire : Protocol.Frame} (hfits : wire.Fits)
    {ops : List Protocol.FrameDecoder.Op} (hfed : Protocol.FrameDecoder.fed ops <+: wire.encoded) :
    Protocol.FrameDecoder.frames ops = [] ∨ Protocol.FrameDecoder.frames ops = [wire] := by
  obtain ⟨more, hmore⟩ := hfed
  obtain ⟨rest, hstream, hall, -⟩ := Protocol.FrameDecoder.stream_of_run ops
  cases hframes : Protocol.FrameDecoder.frames ops with
  | nil => exact .inl rfl
  | cons frame frames =>
    rw [hframes] at hstream hall
    have hsplit : frame.encoded ++ (encodeAll frames ++ rest ++ more) = wire.encoded ++ [] := by
      rw [List.append_nil, ← hmore, hstream]
      simp [encodeAll]
    obtain ⟨rfl, hnil⟩ := encoded_inj (hall frame List.mem_cons_self) hfits hsplit
    cases frames with
    | nil => exact .inr rfl
    | cons other frames =>
      have hlength := (encoded_append_length other (hall other (by simp)) []).1
      have hempty : other.encoded = [] := by
        simp only [encodeAll, List.flatMap_cons, List.append_eq_nil_iff] at hnil
        exact hnil.1.1.1
      simp [hempty] at hlength

theorem frames_whole {wire : Protocol.Frame} (hfits : wire.Fits) :
    Protocol.FrameDecoder.frames [.feed wire.encoded, .next] = [wire] := by
  have hne : wire.encoded.length ≠ 0 := by simp [Protocol.Frame.encoded, encodeFrame]
  have hfeed : Protocol.FrameDecoder.fresh.feed wire.encoded = ⟨wire.encoded, .none⟩ := by
    unfold Protocol.FrameDecoder.feed
    rw [if_neg (by simp [Protocol.FrameDecoder.fresh, Protocol.FrameDecoder.failed, hne])]
    rfl
  have hnext := Protocol.FrameDecoder.next_spec wire.encoded
  generalize hr : Protocol.FrameDecoder.next ⟨wire.encoded, .none⟩ = r at hnext
  have hframes : Protocol.FrameDecoder.frames [.feed wire.encoded, .next] = r.2.toList := by
    simp only [Protocol.FrameDecoder.frames, Protocol.FrameDecoder.returned, Runs.trace,
      Protocol.FrameDecoder.step, hfeed, hr]
    cases r.2 <;> rfl
  rw [hframes]
  clear hr hframes
  cases hnext with
  | takes frame rest hframe hsplit =>
    rw [← List.append_nil wire.encoded] at hsplit
    obtain ⟨rfl, -⟩ := encoded_inj hfits hframe hsplit
    rfl
  | waits hshort =>
    rw [← List.append_nil wire.encoded] at hshort
    exact absurd hshort (not_short_encoded wire hfits [])
  | fails e hviolates =>
    rw [← List.append_nil wire.encoded] at hviolates
    exact absurd hviolates (not_violates_encoded wire hfits [] e)

theorem written_of_emitted {σ : Type} {w w' : World σ} {calls : List BackendCall}
    {frames : List Bytes} (h : World.Emitted w w' calls frames) : written w w' = frames.flatten := by
  obtain ⟨events, hlog, -, rfl⟩ := h
  rw [written, hlog, List.drop_left]

/-! ### The host's end -/

section

variable {fields : Fields c}

theorem deliver_decoder_comm (r : Relay c) (frame : Frame c) (decoder : FrameDecoder) :
    { r with decoder }.deliver fields frame = { r.deliver fields frame with decoder } := by
  unfold Relay.deliver
  simp only
  split <;> rfl

theorem delivers_decoder_comm (frames : List (Frame c)) (r : Relay c) (decoder : FrameDecoder) :
    frames.foldl (Relay.deliver fields) { r with decoder }
      = { frames.foldl (Relay.deliver fields) r with decoder } := by
  induction frames generalizing r with
  | nil => rfl
  | cons frame rest ih => rw [List.foldl_cons, deliver_decoder_comm, ih, List.foldl_cons]

/-- However a good stream is cut, its frames are delivered in order. -/
theorem onBytes_stream (fields : Fields c) (chunks : List Bytes) {r : Relay c} {more : Bytes}
    {fs : List Protocol.Frame} {gs : List (Frame c)} (hfits : ∀ f ∈ fs, f.Fits)
    (hreads : List.Forall₂ Reads fs gs)
    (h : r.decoder.buffer ++ chunks.flatten ++ more = encodeAll fs) :
    ∃ k decoder, chunks.foldl (Relay.onBytes fields) r
      = { (gs.take k).foldl (Relay.deliver fields) r with decoder } := by
  induction chunks generalizing r fs gs with
  | nil => exact ⟨0, r.decoder, rfl⟩
  | cons chunk rest ih =>
    have hstream : r.decoder.buffer ++ chunk ++ (rest.flatten ++ more) = encodeAll fs := by
      rw [← h]
      simp
    obtain ⟨k, decoder, hadd, hmore, -⟩ := add_spec hfits hreads hstream
    have honBytes : r.onBytes fields chunk
        = { (gs.take k).foldl (Relay.deliver fields) r with decoder } := by
      unfold Relay.onBytes
      rw [hadd]
      exact delivers_decoder_comm _ _ _
    rw [← List.append_assoc] at hmore
    obtain ⟨k', decoder', hfold⟩ := ih (r := r.onBytes fields chunk)
      (fun f hf => hfits f (List.mem_of_mem_drop hf)) (List.forall₂_drop k hreads)
      (by rw [honBytes]; exact hmore)
    refine ⟨k + k', decoder', ?_⟩
    rw [List.foldl_cons, hfold, honBytes, delivers_decoder_comm, List.take_add, List.foldl_append]

def asking (c : Convert) : Relay c := { Relay.attached c with waiter := some .negotiate, sent := 1 }

theorem deliver_asking_outcomes (reply : Frame c) :
    ((asking c).deliver fields reply).outcomes
      = [.completed .negotiate 1 reply (Call.complete fields .negotiate reply)] := rfl

theorem deliver_asking_revision {reply : Frame c} {selected : Int}
    (h : Call.complete fields .negotiate reply = .revision selected) :
    ((asking c).deliver fields reply).revision = some selected := by
  simp [asking, Relay.attached, Relay.deliver, Relay.complete, Relay.settle, h]

end

/-! ## Both ends -/

section

variable {σ : Type} {unrepresentable : Unrepresentable} {backend : EngineBackend σ} {w : World σ}
  {fields : Fields c} {wire answer : Protocol.Frame} {reply : Frame c}

/-- When the host has an outcome, the station has had the HELLO and the host the answer. -/
theorem exchange_outcome (hfits : wire.Fits) (hanswer : answer.Fits)
    (hemitted : World.Emitted w (w.handle unrepresentable backend wire).2 [] [answer.encoded])
    (hreads : Reads answer reply) {ops : List Protocol.FrameDecoder.Op} {chunks : List Bytes}
    (hfed : Protocol.FrameDecoder.fed ops <+: wire.encoded)
    (hchunks : chunks.flatten <+: written w (stationAfter unrepresentable backend w ops))
    (hover : (chunks.foldl (Relay.onBytes fields) (asking c)).outcomes ≠ []) :
    stationAfter unrepresentable backend w ops = (w.handle unrepresentable backend wire).2 ∧
      ∃ decoder, chunks.foldl (Relay.onBytes fields) (asking c)
        = { (asking c).deliver fields reply with decoder } := by
  obtain ⟨more, hmore⟩ := hchunks
  rcases frames_of_prefix hfits hfed with hframes | hframes
  · have hstation : stationAfter unrepresentable backend w ops = w := by
      rw [stationAfter, hframes, List.foldl_nil]
    have hstream : (asking c).decoder.buffer ++ chunks.flatten ++ more = encodeAll [] := by
      rw [List.append_assoc, hmore, hstation, written]
      simp [asking, Relay.attached, encodeAll]
    obtain ⟨k, decoder, hfold⟩ := onBytes_stream fields chunks (by simp) .nil hstream
    rw [hfold] at hover
    simp [asking, Relay.attached] at hover
  · have hstation : stationAfter unrepresentable backend w ops
        = (w.handle unrepresentable backend wire).2 := by
      rw [stationAfter, hframes, List.foldl_cons, List.foldl_nil]
    have hstream : (asking c).decoder.buffer ++ chunks.flatten ++ more = encodeAll [answer] := by
      rw [List.append_assoc, hmore, hstation, written_of_emitted hemitted]
      simp [asking, Relay.attached, encodeAll]
    obtain ⟨k, decoder, hfold⟩ := onBytes_stream fields chunks (by simpa using hanswer)
      (.cons hreads .nil) hstream
    refine ⟨hstation, decoder, ?_⟩
    cases k with
    | zero =>
      rw [hfold] at hover
      simp [asking, Relay.attached] at hover
    | succ k =>
      rw [hfold, List.take_succ_cons, List.take_nil]
      rfl

def helloWire (revisions : Finset Int) : Protocol.Frame :=
  ⟨.hello, helloText (revisions.sort (· ≤ ·))⟩

def ackWire : Protocol.Frame := ⟨.helloAck, World.ackText⟩

def refusalWire : Protocol.Frame := ⟨.error, refusalText⟩

theorem answers_fit : ackWire.Fits ∧ refusalWire.Fits := by
  unfold Protocol.Frame.Fits
  decide +kernel

theorem answers_nonempty : ackWire.payload ≠ [] ∧ refusalWire.payload ≠ [] := by decide +kernel

theorem hello_wire {host : Host c} {revisions : Finset Int}
    (h : host.Documented (revisions.sort (· ≤ ·))) :
    (host.hello revisions).wire = helloWire revisions := by
  simp only [Host.hello, Frame.wire, Frame.body, helloWire, h.nonempty, h.encodes,
    Bool.false_eq_true, if_false]

theorem request_hello {host : Host c} {revisions : Finset Int}
    (h : host.Documented (revisions.sort (· ≤ ·))) (hfits : (helloWire revisions).Fits) :
    (Relay.attached c).request host.toFields .negotiate (host.hello revisions) false
      = (asking c, some (helloWire revisions).encoded) := by
  have hencode := encode_of_fits (host.hello revisions) (by rw [hello_wire h]; exact hfits)
  rw [hello_wire h] at hencode
  simp [Relay.request, Relay.attached, hencode, asking]

theorem narrowsToOne_offer (revisions : Finset Int) :
    (∃ n ∈ (revisions.sort (· ≤ ·)).map integral,
      NarrowsToOne unrepresentable (nearest n)) ↔
        ∃ n ∈ revisions, NarrowsToOne unrepresentable (.ofInt n) := by
  simp [nearest_integral]

section

variable {host : Host c} {revisions : Finset Int}
  (hdocumented : host.Documented (revisions.sort (· ≤ ·))) (hlive : w.session.finished = false)
  (hfirst : w.session.negotiated = false) (hfits : (helloWire revisions).Fits)

include hdocumented hlive hfirst hfits

/-- The station acknowledges revision one, whatever it took for it. -/
theorem hostAgrees_acknowledged
    (hone : ∃ n ∈ revisions, NarrowsToOne unrepresentable (.ofInt n)) :
    HostAgrees unrepresentable backend host w revisions ↔ 1 ∈ revisions := by
  obtain ⟨hemitted, hrevision⟩ := World.hello_ack unrepresentable backend hlive hfirst
    (helloText_readAs _) (helloDoc_offered _) ((narrowsToOne_offer revisions).mpr hone)
  change World.Emitted w (w.handle unrepresentable backend (helloWire revisions)).2 []
    [ackWire.encoded] at hemitted
  change (w.handle unrepresentable backend (helloWire revisions)).2.session.revision = 1
    at hrevision
  obtain ⟨m, hm, hint⟩ := hdocumented.acknowledges
  have hanswer := answers_fit.1
  have hreads : Reads ackWire (⟨.helloAck, m⟩ : Frame c) := ⟨rfl, .inr ⟨answers_nonempty.1, hm⟩⟩
  have hcomplete : Call.complete host.toFields .negotiate ⟨.helloAck, m⟩ = .revision 1 := by
    simp [Call.complete, hint]
  unfold HostAgrees
  simp only [request_hello hdocumented hfits]
  constructor
  · intro h
    have hstation : stationAfter unrepresentable backend w
        [.feed (helloWire revisions).encoded, .next]
        = (w.handle unrepresentable backend (helloWire revisions)).2 := by
      rw [stationAfter, frames_whole hfits]
      rfl
    refine (h _ [.feed (helloWire revisions).encoded, .next] [ackWire.encoded]
      rfl ?_ ?_ 1 ⟨.helloAck, m⟩ 1 ?_).1
    · simp [Protocol.FrameDecoder.fed]
    · rw [hstation, written_of_emitted hemitted]
    · have hbytes : (asking c).onBytes host.toFields ackWire.encoded = _ :=
        System.onBytes_one hanswer hreads rfl
      rw [List.foldl_cons, List.foldl_nil, hbytes, deliver_asking_outcomes, hcomplete,
        List.mem_singleton]
  · intro hmem bytes ops chunks hsent hfed hchunks arrival response selected hcompleted
    cases hsent
    obtain ⟨hstation, decoder, hfold⟩ := exchange_outcome hfits hanswer hemitted hreads hfed
      hchunks (List.ne_nil_of_mem hcompleted)
    rw [hfold] at hcompleted ⊢
    simp only [deliver_asking_outcomes, hcomplete, List.mem_singleton] at hcompleted
    cases hcompleted
    refine ⟨hmem, deliver_asking_revision hcomplete, ?_⟩
    rw [hstation, hrevision]
    exact hmem

theorem hostAgrees_refused
    (hone : ¬ ∃ n ∈ revisions, NarrowsToOne unrepresentable (.ofInt n)) :
    HostAgrees unrepresentable backend host w revisions := by
  obtain ⟨hemitted, -⟩ := World.hello_refused unrepresentable backend hlive hfirst
    (helloText_readAs _) (helloDoc_offered _) fun h => hone ((narrowsToOne_offer revisions).mp h)
  change World.Emitted w (w.handle unrepresentable backend (helloWire revisions)).2 []
    [refusalWire.encoded] at hemitted
  obtain ⟨m, hm⟩ := hdocumented.refuses
  have hanswer := answers_fit.2
  have hreads : Reads refusalWire (⟨.error, m⟩ : Frame c) := ⟨rfl, .inr ⟨answers_nonempty.2, hm⟩⟩
  unfold HostAgrees
  simp only [request_hello hdocumented hfits]
  intro bytes ops chunks hsent hfed hchunks arrival response selected hcompleted
  cases hsent
  obtain ⟨-, decoder, hfold⟩ := exchange_outcome hfits hanswer hemitted hreads hfed hchunks
    (List.ne_nil_of_mem hcompleted)
  rw [hfold] at hcompleted
  simp [deliver_asking_outcomes, Call.complete, exceptionFrom] at hcompleted

end

/-- What both sides record was offered, exactly when no revision of the host's is taken for one that
it did not offer. -/
theorem hostAgrees_iff {host : Host c} {revisions : Finset Int}
    (hdocumented : host.Documented (revisions.sort (· ≤ ·))) (hlive : w.session.finished = false)
    (hfirst : w.session.negotiated = false) :
    HostAgrees unrepresentable backend host w revisions ↔
      NoHostAlias unrepresentable revisions := by
  have hsize : (helloWire revisions).Fits ↔
      ¬ 2 ^ 20 < 1 + (helloText (revisions.sort (· ≤ ·))).length := by
    unfold Protocol.Frame.Fits helloWire
    simp only
    omega
  by_cases hfits : (helloWire revisions).Fits
  · have hsmall := hsize.mp hfits
    by_cases hone : ∃ n ∈ revisions, NarrowsToOne unrepresentable (.ofInt n)
    · rw [hostAgrees_acknowledged hdocumented hlive hfirst hfits hone]
      obtain ⟨n, hn, hnarrows⟩ := hone
      exact ⟨.inl, fun h => h.resolve_right fun h => h.elim (fun h => h n hn hnarrows) hsmall⟩
    · refine iff_of_true (hostAgrees_refused hdocumented hlive hfirst hfits hone) ?_
      exact .inr (.inl fun n hn hnarrows => hone ⟨n, hn, hnarrows⟩)
  · -- The request throws, and nothing is sent.
    have hlarge := not_not.mp (mt hsize.mpr hfits)
    have hnone : (host.hello revisions).encode = none := by
      rw [encode_eq_none]
      exact (congrArg (2 ^ 20 < 1 + ·.payload.length) (hello_wire hdocumented)).mpr hlarge
    refine iff_of_true ?_ (.inr (.inr hlarge))
    intro bytes ops chunks _ _ hsent
    simp [Relay.request, Relay.attached, hnone] at hsent

/-- **Revision agreement.** The station answers a HELLO by the numbers of its array, and what a host
and the station record was offered, exactly when no number is taken for a revision that it is not;
and a payload that is no document is refused. -/
theorem revision_agreement (unrepresentable : Unrepresentable) (backend : EngineBackend σ) (s : σ)
    (transcript : Bool) (host : Host c) :
    let w := World.fresh s transcript
    (∀ payload d, ReadAs payload d → (World.Agrees unrepresentable backend w payload d ↔
      World.NoAlias unrepresentable d)) ∧
    (∀ payload, (∀ d, ¬ ReadAs payload d) →
      World.Refuses w (w.handle unrepresentable backend ⟨.hello, payload⟩).2 .badArgument) ∧
    ∀ revisions : Finset Int, host.Documented (revisions.sort (· ≤ ·)) →
      (HostAgrees unrepresentable backend host w revisions ↔
        NoHostAlias unrepresentable revisions) := by
  intro w
  refine ⟨?_, ?_, ?_⟩
  · intro payload d hread
    exact World.agrees_iff unrepresentable backend rfl rfl hread
  · intro payload hunread
    exact World.hello_unread unrepresentable backend rfl rfl hunread
  · intro revisions hdocumented
    exact hostAgrees_iff hdocumented rfl rfl

end

/-! ## Two offers -/

def asciiHost : Host asciiConvert where
  toFields := System.asciiFields
  revisions ns := [(ascii "revisions", .array (ns.map fun n => .number (.ofInt n)))]

theorem asciiHost_documented {revisions : List Int}
    (h : asciiConvert.utf8Encode (asciiConvert.jsonEncode (asciiHost.revisions revisions))
      = helloText revisions) : asciiHost.Documented revisions := by
  have hack : (match decodePayload (c := asciiConvert) World.ackText with
      | .ok m => asciiHost.int m (ascii "revision")
      | .error _ => none) = some 1 := by decide +kernel
  have hrefusal : (decodePayload (c := asciiConvert) refusalText).isOk = true := by decide +kernel
  refine ⟨rfl, h, ?_, ?_⟩
  · cases hm : decodePayload (c := asciiConvert) World.ackText with
    | ok m =>
      rw [hm] at hack
      exact ⟨m, rfl, hack⟩
    | error e =>
      rw [hm] at hack
      cases hack
  · cases hm : decodePayload (c := asciiConvert) refusalText with
    | ok m => exact ⟨m, rfl⟩
    | error e =>
      rw [hm] at hrefusal
      cases hrefusal

/-- An offer of `2 ^ 32 + 1` is taken for revision one. -/
theorem revision_agreement_fails :
    ¬ World.Agrees (fun _ => Int64.minValue) nullBackend (World.fresh () false)
        (ascii "\x7b\"revisions\":[4294967297]\x7d") (helloDoc [4294967297]) ∧
      ¬ HostAgrees (fun _ => Int64.minValue) nullBackend asciiHost (World.fresh () false)
        {4294967297} := by
  have hnarrows : NarrowsToOne (fun _ => Int64.minValue) (.ofInt 4294967297) :=
    (narrowsToOne_ofInt (by decide)).mpr (by decide)
  have htext : helloText [4294967297] = ascii "\x7b\"revisions\":[4294967297]\x7d" := by decide
  constructor
  · have hread := helloText_readAs [4294967297]
    rw [htext] at hread
    rw [World.agrees_iff _ nullBackend rfl rfl hread]
    intro hno
    rcases hno _ (helloDoc_offered [4294967297]) with hmem | hnone
    · rw [mem_numbers_integral] at hmem
      simp at hmem
    · refine hnone (integral 4294967297) (List.mem_singleton.mpr rfl) ?_
      rw [nearest_integral]
      exact hnarrows
  · rw [hostAgrees_iff (asciiHost_documented (by decide +kernel)) rfl rfl]
    rintro (hmem | hnone | hlarge)
    · simp at hmem
    · exact hnone _ (by simp) hnarrows
    · rw [Finset.sort_singleton, htext] at hlarge
      revert hlarge
      decide

theorem revision_agreement_mixed :
    World.Agrees (fun _ => Int64.minValue) nullBackend (World.fresh () false)
        (helloText [-7, 1, 4294967297]) (helloDoc [-7, 1, 4294967297]) ∧
      HostAgrees (fun _ => Int64.minValue) nullBackend asciiHost (World.fresh () false) {1} := by
  obtain ⟨hstation, -, hhost⟩ := revision_agreement (fun _ => Int64.minValue) nullBackend ()
    false asciiHost
  refine ⟨(hstation _ _ (helloText_readAs _)).mpr ?_, (hhost {1} ?_).mpr (.inl (by simp))⟩
  · intro numerals hoffered
    rw [helloDoc_offered] at hoffered
    cases hoffered
    exact .inl ((mem_numbers_integral _).mpr (by simp))
  · exact asciiHost_documented (by decide +kernel)

end OakBarrels.Client
