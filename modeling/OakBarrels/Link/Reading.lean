import OakBarrels.Link.Served
import OakBarrels.Probe.Acceptance

/-!
# The client reads

What the client finds in the text of a reply is what the reply was made from, so that a call returns
the result that the reply yields.
-/

open Octets Binary64 Utf8

namespace OakBarrels

open Json Protocol
open Client (Call Result Convert Reader Writer)

/-- What the client finds under the names of an object: integers that are written as such, strings,
booleans, lists of strings, and the numbers of a map. -/
structure Client.Reader.Finds {c : Convert} (reader : Reader c) (members : List (Bytes × Value))
    (payload : c.Map) : Prop where
  int : ∀ key (k : Int), k.natAbs < 10 ^ 15 → members.lookup key = some (.number (.ofInt k)) →
    reader.int payload key = some k
  string : ∀ key s, members.lookup key = some (.string s) → reader.string payload key = some s
  isTrue : ∀ key b, members.lookup key = some (.boolean b) → reader.isTrue payload key = b
  strings : ∀ key names, members.lookup key = some (.array (names.map .string)) →
    reader.strings payload key = names
  numbers : ∀ key entries, members.lookup key = some (.object entries) →
    reader.numbers payload key = Service.numeric entries

/-- `jsonDecode` of the UTF-8 text of an object gives a map with its members. -/
def Client.Reader.Documented {c : Convert} (reader : Reader c) : Prop :=
  ∀ members, (Value.object members).Distinct → (Value.object members).height ≤ 64 →
    (Value.object members).Utf8 → ∃ payload : c.Map,
      Client.decodePayload (Value.object members).dump = .ok payload ∧ reader.Finds members payload

namespace Reply

/-- The reply fits a frame, and its text can be read. -/
structure Presented (reply : Reply) : Prop where
  distinct : (Value.object reply.members).Distinct
  shallow : (Value.object reply.members).height ≤ 64
  utf8 : (Value.object reply.members).Utf8
  fits : reply.frame.Fits
  limits : ∀ classes limits bulk, reply = .capsReply classes limits bulk →
    ∃ entries, limits = .object entries

variable {reply : Reply} {c : Convert} {reader : Reader c}

theorem Presented.reads (h : reply.Presented) (hdocumented : reader.Documented) :
    ∃ response : Client.Frame c, Client.Reads reply.frame response ∧
      (reply ≠ .bye → reader.Finds reply.members response.payload) := by
  by_cases hbye : reply = .bye
  · subst hbye
    exact ⟨⟨.bye, c.empty⟩, ⟨rfl, .inl ⟨rfl, rfl⟩⟩, fun hne => absurd rfl hne⟩
  · obtain ⟨payload, hdecode, hfinds⟩ := hdocumented _ h.distinct h.shallow h.utf8
    have htext : reply.frame.payload = (Value.object reply.members).dump := by
      cases reply <;> first | rfl | exact absurd rfl hbye
    have hne : reply.frame.payload ≠ [] := by
      rw [htext]
      simp [Value.dump, writeValue]
    refine ⟨⟨reply.type, payload⟩, ⟨rfl, .inr ⟨hne, ?_⟩⟩, fun _ => hfinds⟩
    rw [htext]
    exact hdecode

end Reply

/-! ## The result of a call -/

section

variable {c : Convert} {reader : Reader c} {members : List (Bytes × Value)} {payload : c.Map}

theorem Client.Reader.Finds.count (h : reader.Finds members payload) {key : Bytes} {n : UInt32}
    (hkey : members.lookup key = some (.integer (Int64.ofNat n.toNat))) :
    reader.int payload key = some (n.toNat : Int) := by
  have hlt := n.toNat_lt
  refine h.int key n.toNat (by omega) ?_
  rw [hkey, Value.integer, World.code_toInt]

theorem Client.Reader.Finds.revision (h : reader.Finds members payload) {key : Bytes} {n : Int32}
    (hkey : members.lookup key = some (.integer n.toInt64)) :
    reader.int payload key = some n.toInt := by
  have hlt := n.toInt_lt
  have hle := n.le_toInt
  refine h.int key n.toInt (by omega) ?_
  rw [hkey, Value.integer, Int32.toInt_toInt64]

theorem reasonFromCode_code (reason : Reason) :
    Client.reasonFromCode (reason.code.toNat : Int) = some reason := by
  cases reason <;> decide

/-- A call returns the result that its reply yields. -/
theorem Yields.result {call : Call} {reply : Reply} {result : Result} {response : Client.Frame c}
    (h : Yields call reply result) (hpresented : reply.Presented)
    (htype : response.type = reply.type)
    (hfinds : reply ≠ .bye → reader.Finds reply.members response.payload) (arrival : Nat) :
    (Client.Outcome.completed call arrival response
      (call.complete reader.toFields response)).result reader call = result := by
  unfold Client.Outcome.result Call.complete
  cases h with
  | farewell reply => rfl
  | error call reason hcall =>
    have hfound := hfinds (by simp)
    have hreason : reader.int response.payload (ascii "reason") = some (reason.code.toNat : Int) :=
      hfound.count rfl
    have hdetail := hfound.string (ascii "detail") (reasonSummary reason) rfl
    simp only [htype, Reply.type, if_neg hcall, if_true, Client.exceptionFrom, hreason, hdetail,
      Option.bind_some, reasonFromCode_code]
    rfl
  | revision revision =>
    have hselected : reader.int response.payload (ascii "revision") = some revision.toInt :=
      (hfinds (by simp)).revision rfl
    simp only [htype, Reply.type, reduceCtorEq, ne_eq, not_true_eq_false, if_false, hselected]
    rfl
  | capabilities classes limits bulk =>
    have hfound := hfinds (by simp)
    obtain ⟨entries, rfl⟩ := hpresented.limits classes limits bulk rfl
    simp only [htype, Reply.type, reduceCtorEq, ne_eq, not_true_eq_false, if_false,
      Client.Completion.result, if_true, Client.Capabilities.fromPayload,
      hfound.strings (ascii "classes") classes rfl, hfound.numbers (ascii "limits") entries rfl,
      hfound.isTrue (ascii "bulk") bulk rfl, Value.members]
  | handle handle hne =>
    have htarget : reader.int response.payload (ascii "handle") = some (handle.toNat : Int) :=
      (hfinds (by simp)).count rfl
    have hnat : (handle.toNat : Int) ≠ 0 := by
      rw [Ne, ← UInt32.toNat_inj, UInt32.toNat_zero] at hne
      exact_mod_cast hne
    simp only [htype, Reply.type, reduceCtorEq, ne_eq, not_true_eq_false, if_false, htarget,
      if_neg hnat]
    rfl
  | done call handle hcall =>
    rcases hcall with rfl | rfl | rfl <;>
      simp [htype, Reply.type, Client.Completion.result]
  | diagnostics report =>
    have hfound := hfinds (by simp)
    have hrevision : reader.int response.payload (ascii "revision") = some report.revision.toInt :=
      hfound.revision rfl
    have htargets : reader.int response.payload (ascii "targets")
        = some (report.targets.toNat : Int) := hfound.count rfl
    have hsymbols : reader.int response.payload (ascii "symbols_resolved")
        = some (report.symbolsResolved.toNat : Int) := hfound.count rfl
    have hfiles : reader.int response.payload (ascii "files_examined")
        = some (report.filesExamined.toNat : Int) := hfound.count rfl
    have hcandidates : reader.int response.payload (ascii "candidates_found")
        = some (report.candidatesFound.toNat : Int) := hfound.count rfl
    simp only [htype, Reply.type, reduceCtorEq, ne_eq, not_true_eq_false, if_false,
      Client.Completion.result, Client.Diagnostics.fromPayload, hrevision, htargets, hsymbols, hfiles,
      hcandidates, hfound.strings (ascii "classes") report.classes rfl,
      hfound.isTrue (ascii "diagnose") report.diagnose rfl,
      hfound.isTrue (ascii "identify") report.identify rfl,
      hfound.isTrue (ascii "discovery_truncated") report.discoveryTruncated rfl, Option.getD_some]

end

/-! ## A client over the station's own JSON -/

def asciiReader : Reader Client.asciiConvert where
  toFields := Client.System.asciiFields
  isTrue m key := ((m.lookup key).map fun v => v.asBool false).getD false
  strings m key := (((m.lookup key).map Value.asArray).getD []).filterMap fun v =>
    if v.isString then some (v.asString []) else none
  numbers m key := Service.numeric (((m.lookup key).map Value.members).getD [])

def asciiWriter : Writer Client.asciiConvert := ⟨Client.entriesValue⟩

theorem rational_alike {t u : Value} (h : t.Alike u.finiteOrNull) :
    Service.rational? t = Service.rational? u := by
  cases u with
  | number x =>
    cases x with
    | finite s a =>
      cases t with
      | number y => exact value_of_beq h rfl
      | _ => exact h.elim
    | _ =>
      cases t with
      | null => rfl
      | _ => exact h.elim
  | _ =>
    cases t with
    | number y => exact h.elim
    | _ => rfl

theorem numeric_alike {found entries : List (Bytes × Value)}
    (h : membersAlike found (membersFiniteOrNull entries)) :
    Service.numeric found = Service.numeric entries := by
  induction entries generalizing found with
  | nil =>
    cases found with
    | nil => rfl
    | cons m rest => exact h.elim
  | cons entry rest ih =>
    cases found with
    | nil => exact h.elim
    | cons m found =>
      obtain ⟨hname, halike, hrest⟩ := h
      have hhead := rational_alike halike
      have htail := ih hrest
      unfold Service.numeric at htail ⊢
      rw [List.filterMap_cons, List.filterMap_cons, htail, hhead, show m.1 = entry.1 from hname]

theorem asciiReader_documented : asciiReader.Documented := by
  intro members hdistinct hheight _
  obtain ⟨w, hparse, -, halike⟩ := parse_dump_alike hdistinct hheight
  cases w with
  | object found =>
    have hfind : ∀ {key u}, members.lookup key = some u →
        ∃ t, found.lookup key = some t ∧ t.Alike u.finiteOrNull :=
      fun hlookup => lookup_alike halike (lookup_finiteOrNull hlookup)
    refine ⟨found, ?_, ⟨?_, ?_, ?_, ?_, ?_⟩⟩
    · unfold Client.decodePayload Client.asciiConvert
      simp only [hparse]
    · intro key k hk hlookup
      obtain ⟨t, ht, hnumber⟩ := hfind hlookup
      have hfinite : (Value.number (.ofInt k)).finiteOrNull = .number (.ofInt k) := by
        rw [Value.finiteOrNull, ofInt_exact k (by omega)]
        rfl
      rw [hfinite] at hnumber
      cases t with
      | number x =>
        have htruncate : x.truncate = k := by
          have hvalue := value_of_beq hnumber (ofInt_value k (by omega))
          cases x with
          | finite s a => exact truncate_of_int s a k (by simpa [Double.value] using hvalue)
          | _ => simp [Double.value] at hvalue
        simp only [asciiReader, Client.System.asciiFields, ht, htruncate]
        exact if_pos hnumber
      | _ => exact hnumber.elim
    · intro key s hlookup
      obtain ⟨t, ht, hstring⟩ := hfind hlookup
      cases t with
      | string text =>
        obtain rfl : text = s := hstring
        simp only [asciiReader, Client.System.asciiFields, ht]
      | _ => exact hstring.elim
    · intro key b hlookup
      obtain ⟨t, ht, hboolean⟩ := hfind hlookup
      simp [asciiReader, ht, boolean_alike hboolean, Value.asBool]
    · intro key names hlookup
      obtain ⟨t, ht, hnames⟩ := hfind hlookup
      rw [show t = .array (names.map .string) from classes_alike hnames] at ht
      simp [asciiReader, ht, Value.asArray, List.filterMap_map, Value.isString, Value.asString]
    · intro key entries hlookup
      obtain ⟨t, ht, hentries⟩ := hfind hlookup
      cases t with
      | object inner => simpa [asciiReader, ht, Value.members] using numeric_alike hentries
      | _ => exact hentries.elim
  | _ => exact halike.elim

/-- A call with nothing to say. -/
theorem asciiWriter_writes_nil : asciiWriter.Writes [] := by
  refine ⟨rfl, .object [], ?_, rfl, rfl⟩
  exact ⟨[], _, [], whitespace_nil, Reads.emptyObject whitespace_nil, whitespace_nil, by decide⟩

/-- An offer of revisions. -/
theorem asciiWriter_writes_hello {revisions : List Int}
    (h : (Value.object (Client.entriesValue
      [(ascii "revisions", .list (revisions.map .int))])).dump = Client.helloText revisions) :
    asciiWriter.Writes [(ascii "revisions", .list (revisions.map .int))] := by
  have hread := Client.helloText_readAs revisions
  unfold ReadAs at hread
  rw [if_neg (by rw [← h]; simp [Value.dump, writeValue])] at hread
  have hitems : ∀ ns : List Int, itemsMeaning (ns.map fun n => Doc.number (Conversion.integral n))
      = Client.itemsValue (ns.map .int) ∧
      itemsDepth (ns.map fun n => Doc.number (Conversion.integral n))
        = itemsHeight (Client.itemsValue (ns.map .int)) := by
    intro ns
    induction ns with
    | nil => exact ⟨rfl, rfl⟩
    | cons n rest ih =>
      have hnumber : (Conversion.strtod (Conversion.integral n).text).1 = .ofInt n := by
        rw [Conversion.strtod_text _ (Conversion.integral_spelled n).1, Conversion.nearest_integral]
      simp [itemsMeaning, itemsDepth, Client.itemsValue, itemsHeight, ih, Client.Datum.value,
        Doc.meaning, hnumber, Doc.height, Value.height]
  refine ⟨rfl, Client.helloDoc revisions, ?_, ?_, ?_⟩
  · have hwritten : Client.asciiConvert.utf8Encode (Client.asciiConvert.jsonEncode (asciiWriter.map
        [(ascii "revisions", .list (revisions.map .int))])) = Client.helloText revisions := h
    rw [hwritten]
    exact hread.1
  · simp [Client.helloDoc, Doc.meaning, membersMeaning, hitems, Client.Datum.value,
      Client.entriesValue, lastWins_nodup]
  · simp [Client.helloDoc, Doc.height, membersDepth, hitems, Client.Datum.value, Client.entriesValue,
      Value.height, membersHeight]

end OakBarrels
