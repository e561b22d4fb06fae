import OakBarrels.Json.Members
import OakBarrels.SessionLaws

/-!
# Which revision a HELLO gets

The numbers that a HELLO offers, as its text spells them, against what the station makes of them: a
double, a 64-bit integer, an `int`, and only then a comparison.
-/

open Octets Binary64 Decimal Conversion

namespace OakBarrels

open Json Protocol

/-! ## What a HELLO offers -/

/-- The document that the station reads in a payload: an empty object where there is none. -/
def ReadAs (payload : Bytes) (d : Doc) : Prop :=
  if payload = [] then d = .object [] else IsText payload d ∧ d.height ≤ kMaxParseDepth

def Json.Doc.number? : Doc → Option Numeral
  | .number n => some n
  | _ => none

/-- The numbers in the array of revisions; nothing without an array. -/
def Json.Doc.offered (d : Doc) : Option (List Numeral) :=
  match d.member (ascii "revisions") with
  | some (.array items) => some (items.filterMap Doc.number?)
  | _ => none

def numbers (numerals : List Numeral) : Set ℚ := {q | ∃ n ∈ numerals, n.value = q}

def supported : Set ℚ := {q | ∃ r ∈ supportedRevisions, (r.toInt : ℚ) = q}

/-- What an entry of the array becomes before it is compared. -/
def narrowed (unrepresentable : Unrepresentable) (x : Double) : Int32 :=
  ((Value.number x).asInt unrepresentable 0).toInt32

/-- A double whose integer part is one modulo `2 ^ 32`. -/
def NarrowsToOne (unrepresentable : Unrepresentable) (x : Double) : Prop :=
  x.isFinite = true ∧ (toInt64 unrepresentable x).toInt % 2 ^ 32 = 1

instance (unrepresentable : Unrepresentable) (x : Double) :
    Decidable (NarrowsToOne unrepresentable x) :=
  inferInstanceAs (Decidable (_ ∧ _))

theorem ReadAs.isNumber {payload : Bytes} {d : Doc} {items : List Doc} {key : Bytes} {n : Numeral}
    (h : ReadAs payload d) (hitems : d.member key = some (.array items))
    (hn : Doc.number n ∈ items) : IsNumber n := by
  unfold ReadAs at h
  split at h
  · subst h
    cases hitems
  · obtain ⟨⟨_, _, _, _, hd, _, _⟩, _⟩ := h
    obtain ⟨t, ht⟩ := hd.of_member hitems
    exact ht.number_item hn

/-! ## What becomes of the offer -/

variable {unrepresentable : Unrepresentable}

theorem narrowed_eq_one (x : Double) :
    narrowed unrepresentable x = 1 ↔ NarrowsToOne unrepresentable x := by
  unfold narrowed NarrowsToOne
  rw [← Int32.toInt_inj, Int64.toInt_toInt32, Value.asInt]
  cases hfinite : x.isFinite
  · simp
  · simp only [if_true, true_and]
    rw [show (1 : Int32).toInt = 1 from rfl, Int.bmod_def]
    split <;> omega

theorem narrowsToOne_ofInt {k : Int} (h : k.natAbs < 2 ^ 53) :
    NarrowsToOne unrepresentable (.ofInt k) ↔ k % 2 ^ 32 = 1 := by
  have htruncate : (Double.ofInt k).truncate = k := by
    rw [ofInt_exact k h]
    apply truncate_of_int
    have := ofInt_value k h
    rw [ofInt_exact k h] at this
    simpa [Double.value] using this
  have hfinite : (Double.ofInt k).isFinite = true := by rw [ofInt_exact k h]; rfl
  unfold NarrowsToOne toInt64
  rw [htruncate, if_pos (by omega), Int64.toInt_ofInt_of_le (by omega) (by omega)]
  simp [hfinite]

theorem entry_meaning {d : Doc} (h : ∀ n, d = .number n → n.Spelled) :
    (if d.meaning.isNumber then some (d.meaning.asInt unrepresentable 0).toInt32 else none)
      = d.number?.map fun n => narrowed unrepresentable (nearest n) := by
  cases d with
  | number n =>
    rw [Doc.meaning, strtod_text n (h n rfl)]
    rfl
  | _ => rfl

theorem offeredRevisions_meaning {items : List Doc}
    (hnumbers : ∀ n, Doc.number n ∈ items → IsNumber n) :
    offeredRevisions unrepresentable (Doc.array items).meaning
      = (items.filterMap Doc.number?).map fun n => narrowed unrepresentable (nearest n) := by
  rw [Doc.meaning, offeredRevisions, Value.asArray, itemsMeaning_eq, List.filterMap_map,
    List.map_filterMap]
  apply List.filterMap_congr
  intro d hd
  exact entry_meaning fun n hn => (hnumbers n (hn ▸ hd)).1

/-- The one revision of this station, where the host has it. -/
theorem selectRevision_eq (revisions : List Int32) :
    selectRevision revisions = if 1 ∈ revisions then 1 else 0 := by
  have hfold : ∀ best : Int32, best = 0 ∨ best = 1 →
      revisions.foldl (fun best candidate =>
        supportedRevisions.foldl (fun best supported =>
          if candidate = supported ∧ best < candidate then candidate else best) best) best
        = if best = 1 ∨ 1 ∈ revisions then 1 else 0 := by
    induction revisions with
    | nil =>
      rintro best (rfl | rfl) <;> rfl
    | cons candidate rest ih =>
      intro best hbest
      rw [List.foldl_cons]
      simp only [supportedRevisions, List.foldl_cons, List.foldl_nil] at ih ⊢
      by_cases hcandidate : candidate = 1
      · subst hcandidate
        rw [ih _ (by rcases hbest with rfl | rfl <;> decide)]
        rcases hbest with rfl | rfl <;> simp
      · rw [if_neg (fun h => hcandidate h.1), ih _ hbest]
        simp [Ne.symm hcandidate]
  have := hfold 0 (.inl rfl)
  simpa [selectRevision] using this

theorem narrowsToOne_of_value {n : Numeral} (h : n.value = 1) :
    NarrowsToOne unrepresentable (nearest n) := by
  rw [nearest_int (k := 1) (by decide) (by decide) (by simpa using h)]
  exact (narrowsToOne_ofInt (by decide)).mpr (by decide)

theorem selectRevision_narrowed (numerals : List Numeral) :
    selectRevision (numerals.map fun n => narrowed unrepresentable (nearest n)) =
      if ∃ n ∈ numerals, NarrowsToOne unrepresentable (nearest n) then 1 else 0 := by
  have hmem : (1 : Int32) ∈ (numerals.map fun n => narrowed unrepresentable (nearest n)) ↔
      ∃ n ∈ numerals, NarrowsToOne unrepresentable (nearest n) := by
    simp [← narrowed_eq_one]
  rw [selectRevision_eq]
  exact if_congr hmem rfl rfl

/-! ## The answer to a HELLO -/

namespace World

variable {σ : Type} {w w₁ : World σ}

def ackText : Bytes := ascii "\x7b\"revision\":1,\"features\":[]\x7d"

theorem dump_ack :
    (((Value.object []).set (ascii "revision") (.integer (1 : Int32).toInt64)).set
      (ascii "features") (.array [])).dump = ackText := by
  decide +kernel

/-- The answer to a HELLO is a HELLO_ACK with a revision, and it is recorded. -/
def Acknowledges (w w' : World σ) (revision : Int) : Prop :=
  ∃ payload, Emitted w w' [] [encodeFrame .helloAck payload] ∧
    Carries payload (ascii "revision") revision ∧ w'.session.revision.toInt = revision

/-- The answer to a HELLO is an ERROR with a reason, and the session is over. -/
def Refuses (w w' : World σ) (reason : Reason) : Prop :=
  ∃ payload, Emitted w w' [] [encodeFrame .error payload] ∧
    Carries payload (ascii "reason") reason.code.toNat ∧ w'.session.finished = true

theorem ackText_carries : Carries ackText (ascii "revision") 1 := by
  rw [← dump_ack]
  refine carries_dump (k := (1 : Int32).toInt64) ?_ (by decide) rfl (by decide)
  exact (Built.object.set _ (Built.integer _)).set _ (Built.array (by simp))

theorem refuses_of_sendError (hemitted : Emitted w w₁ [] []) (reason : Reason) :
    Refuses w (w₁.sendError reason).finish reason :=
  ⟨_, hemitted.trans (send_emitted w₁ _ _), errorPayload_carries reason, rfl⟩

theorem Refuses.not_acknowledges {reason : Reason} (h : Refuses w w₁ reason) (revision : Int) :
    ¬ Acknowledges w w₁ revision := by
  rintro ⟨payload, hemitted, -, -⟩
  obtain ⟨payload', hemitted', -, -⟩ := h
  have hframes := List.singleton_inj.mp (hemitted.unique hemitted').2
  have hack := congrArg isAck hframes
  rw [isAck_encodeFrame, isAck_encodeFrame] at hack
  cases hack

variable (unrepresentable) (backend : EngineBackend σ)

theorem handle_hello (hlive : w.session.finished = false) (hfirst : w.session.negotiated = false)
    (payload : Bytes) :
    w.handle unrepresentable backend ⟨.hello, payload⟩ =
      handleHello unrepresentable ⟨.hello, payload⟩ (w.transcribe '<' .hello payload) := by
  unfold handle
  rw [if_neg (by simp [hlive])]
  simp [hfirst]

theorem parsePayload_readAs {payload : Bytes} {d : Doc} (h : ReadAs payload d)
    (type : MessageType) : parsePayload ⟨type, payload⟩ = some d.meaning := by
  unfold ReadAs at h
  unfold parsePayload
  split at h
  · rename_i hnil
    subst h
    rw [if_pos hnil]
    rfl
  · rename_i hne
    rw [if_neg hne]
    exact parse_complete h.1 h.2

theorem parsePayload_none {payload : Bytes} (h : ∀ d, ¬ ReadAs payload d) (type : MessageType) :
    parsePayload ⟨type, payload⟩ = none := by
  unfold parsePayload
  split
  · rename_i hnil
    exact absurd (by rw [ReadAs, if_pos hnil]) (h (.object []))
  · rename_i hne
    cases hparse : parse payload with
    | none => rfl
    | some v =>
      obtain ⟨d, htext, hheight, -⟩ := parse_sound hparse
      exact absurd (by rw [ReadAs, if_neg hne]; exact ⟨htext, hheight⟩) (h d)

/-! ## Each kind of HELLO -/

section

variable {payload : Bytes} {d : Doc} {numerals : List Numeral}

theorem handleHello_offered (h : ReadAs payload d) (hoffered : d.offered = some numerals) :
    handleHello unrepresentable ⟨.hello, payload⟩ w =
      if ∃ n ∈ numerals, NarrowsToOne unrepresentable (nearest n) then
        (true, { w with session := { w.session with revision := 1, negotiated := true } }.send
          .helloAck ackText)
      else (false, (w.sendError .noCommonRevision).finish) := by
  obtain ⟨items, hmember, rfl⟩ : ∃ items, d.member (ascii "revisions") = some (.array items) ∧
      items.filterMap Doc.number? = numerals := by
    unfold Doc.offered at hoffered
    split at hoffered
    · rename_i items hmember
      exact ⟨items, hmember, Option.some.inj hoffered⟩
    · cases hoffered
  have harray : (Doc.array items).meaning.isArray = true := rfl
  rw [handleHello, parsePayload_readAs h]
  simp only [find_meaning, hmember, Option.map_some, harray, not_true_eq_false, if_false,
    offeredRevisions_meaning fun n hn => h.isNumber hmember hn]
  rw [selectRevision_narrowed]
  by_cases hone : ∃ n ∈ items.filterMap Doc.number?, NarrowsToOne unrepresentable (nearest n)
  · simp only [if_pos hone, dump_ack, show (1 : Int32) ≠ 0 by decide, if_false]
  · simp only [if_neg hone, if_true]

variable (hlive : w.session.finished = false) (hfirst : w.session.negotiated = false)

include hlive hfirst

theorem hello_unread (h : ∀ d, ¬ ReadAs payload d) :
    Refuses w (w.handle unrepresentable backend ⟨.hello, payload⟩).2 .badArgument := by
  rw [handle_hello unrepresentable backend hlive hfirst, handleHello, parsePayload_none h]
  exact refuses_of_sendError (transcribe_emitted w '<' .hello payload) _

theorem hello_none (h : ReadAs payload d) (hoffered : d.offered = none) :
    Refuses w (w.handle unrepresentable backend ⟨.hello, payload⟩).2 .badArgument := by
  rw [handle_hello unrepresentable backend hlive hfirst, handleHello, parsePayload_readAs h]
  simp only [find_meaning]
  have hrefused := refuses_of_sendError (transcribe_emitted w '<' .hello payload) .badArgument
  cases hmember : d.member (ascii "revisions") with
  | none => exact hrefused
  | some e =>
    cases e with
    | array items => simp [Doc.offered, hmember] at hoffered
    | _ => exact hrefused

theorem hello_ack (h : ReadAs payload d) (hoffered : d.offered = some numerals)
    (hone : ∃ n ∈ numerals, NarrowsToOne unrepresentable (nearest n)) :
    Emitted w (w.handle unrepresentable backend ⟨.hello, payload⟩).2 []
        [encodeFrame .helloAck ackText] ∧
      (w.handle unrepresentable backend ⟨.hello, payload⟩).2.session.revision = 1 := by
  rw [handle_hello unrepresentable backend hlive hfirst, handleHello_offered _ h hoffered,
    if_pos hone]
  refine ⟨(transcribe_emitted w '<' .hello payload).trans ?_, by rw [send_session]⟩
  exact (emitted_of_log rfl).trans (send_emitted _ .helloAck ackText)

theorem hello_refused (h : ReadAs payload d) (hoffered : d.offered = some numerals)
    (hone : ¬ ∃ n ∈ numerals, NarrowsToOne unrepresentable (nearest n)) :
    Emitted w (w.handle unrepresentable backend ⟨.hello, payload⟩).2 []
        [encodeFrame .error (errorPayload .noCommonRevision).dump] ∧
      Refuses w (w.handle unrepresentable backend ⟨.hello, payload⟩).2 .noCommonRevision := by
  rw [handle_hello unrepresentable backend hlive hfirst, handleHello_offered _ h hoffered,
    if_neg hone]
  have hemitted := transcribe_emitted w '<' .hello payload
  exact ⟨hemitted.trans (send_emitted _ _ _), refuses_of_sendError hemitted _⟩

/-! ## The answer against the offer -/

omit hlive hfirst in
theorem acknowledges_iff (hemitted : Emitted w w₁ [] [encodeFrame .helloAck ackText])
    (hrevision : w₁.session.revision = 1) (revision : Int) :
    Acknowledges w w₁ revision ↔ revision = 1 := by
  constructor
  · rintro ⟨-, -, -, rfl⟩
    rw [hrevision]
    rfl
  · rintro rfl
    exact ⟨ackText, hemitted, ackText_carries, by rw [hrevision]; rfl⟩

end

/-- The answer to a HELLO is what the numbers of its array call for. -/
def Agrees (w : World σ) (payload : Bytes) (d : Doc) : Prop :=
  let w' := (w.handle unrepresentable backend ⟨.hello, payload⟩).2
  (∀ revision : Int, Acknowledges w w' revision ↔
    ∃ numerals, d.offered = some numerals ∧ IsGreatest (numbers numerals ∩ supported) revision) ∧
  ∀ numerals, d.offered = some numerals → numbers numerals ∩ supported = ∅ →
    Refuses w w' .noCommonRevision

/-- One is offered, or no number of the array narrows to one. -/
def NoAlias (d : Doc) : Prop :=
  ∀ numerals, d.offered = some numerals →
    (1 : ℚ) ∈ numbers numerals ∨ ∀ n ∈ numerals, ¬ NarrowsToOne unrepresentable (nearest n)

theorem supported_eq : supported = {1} := by
  ext q
  simp [supported, supportedRevisions, eq_comm]

theorem isGreatest_supported (s : Set ℚ) (revision : Int) :
    IsGreatest (s ∩ supported) (revision : ℚ) ↔ revision = 1 ∧ (1 : ℚ) ∈ s := by
  rw [supported_eq]
  constructor
  · rintro ⟨⟨hmem, hone⟩, -⟩
    rw [Set.mem_singleton_iff] at hone
    rw [hone] at hmem
    exact ⟨by exact_mod_cast hone, hmem⟩
  · rintro ⟨rfl, hmem⟩
    exact ⟨⟨by simpa using hmem, by simp⟩, fun q hq => by rw [hq.2]; simp⟩

/-- The station answers a HELLO by its numbers exactly when none of them is taken for another. -/
theorem agrees_iff {payload : Bytes} {d : Doc} (hlive : w.session.finished = false)
    (hfirst : w.session.negotiated = false) (h : ReadAs payload d) :
    Agrees unrepresentable backend w payload d ↔ NoAlias unrepresentable d := by
  unfold Agrees NoAlias
  simp only
  cases hoffered : d.offered with
  | none =>
    have hrefuses := hello_none unrepresentable backend hlive hfirst h hoffered
    simp [hrefuses.not_acknowledges]
  | some numerals =>
    simp only [Option.some.injEq, exists_eq_left', forall_eq', isGreatest_supported]
    by_cases hone : ∃ n ∈ numerals, NarrowsToOne unrepresentable (nearest n)
    · obtain ⟨hemitted, hrevision⟩ :=
        hello_ack unrepresentable backend hlive hfirst h hoffered hone
      simp only [acknowledges_iff hemitted hrevision]
      constructor
      · rintro ⟨hall, -⟩
        exact .inl ((hall 1).mp rfl).2
      · rintro (hmem | hnone)
        · refine ⟨fun revision => by simp [hmem], fun hempty => ?_⟩
          have : (1 : ℚ) ∈ numbers numerals ∩ supported := ⟨hmem, by simp [supported_eq]⟩
          rw [hempty] at this
          cases this
        · obtain ⟨n, hn, hnarrows⟩ := hone
          exact absurd hnarrows (hnone n hn)
    · obtain ⟨-, hrefuses⟩ := hello_refused unrepresentable backend hlive hfirst h hoffered hone
      have habsent : (1 : ℚ) ∉ numbers numerals := by
        rintro ⟨n, hn, hvalue⟩
        exact hone ⟨n, hn, narrowsToOne_of_value hvalue⟩
      have hnone : ∀ n ∈ numerals, ¬ NarrowsToOne unrepresentable (nearest n) :=
        fun n hn hnarrows => hone ⟨n, hn, hnarrows⟩
      simp only [hrefuses.not_acknowledges, habsent, and_false, false_or]
      exact iff_of_true ⟨by simp, fun _ => hrefuses⟩ hnone

end World

end OakBarrels
