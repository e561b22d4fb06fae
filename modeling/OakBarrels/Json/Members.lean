import OakBarrels.Json.Unambiguous

/-!
# The members of a document

What stands under a name in a document, as it is spelled, against what the program finds under it in
the value. A name that is repeated stands for its last member.
-/

open Octets Binary64 Decimal Conversion

namespace OakBarrels.Json

def Doc.member (key : Bytes) : Doc → Option Doc
  | .object members => members.reverse.lookup key
  | _ => none

theorem lookup_membersMeaning (ms : List (Bytes × Doc)) (key : Bytes) :
    (membersMeaning ms).reverse.lookup key = (ms.reverse.lookup key).map Doc.meaning := by
  rw [membersMeaning_eq, ← List.map_reverse]
  induction ms.reverse with
  | nil => rfl
  | cons m rest ih =>
    rw [List.map_cons, lookup_cons_if, lookup_cons_if, ih]
    split <;> rfl

theorem find_meaning (d : Doc) (key : Bytes) :
    d.meaning.find key = (d.member key).map Doc.meaning := by
  cases d with
  | object ms => rw [Doc.meaning, Value.find, lookup_lastWins, lookup_membersMeaning, Doc.member]
  | _ => simp [Doc.meaning, Value.find, Doc.member]

/-! ## Every part is read from a text -/

/-- What stands in an array or an object is read from a text of its own. -/
def Part.InnerRead : Part → Prop
  | .value _ => True
  | .items ds => ∀ d ∈ ds, ∃ t, Reads t (.value d)
  | .members ms => ∀ m ∈ ms, ∃ t, Reads t (.value m.2)

theorem Reads.inner {s : Bytes} {p : Part} (h : Reads s p) : p.InnerRead := by
  induction h with
  | item hd _ _ => simpa [Part.InnerRead] using ⟨_, hd⟩
  | items hd _ _ _ _ ih =>
    intro d hmem
    rcases List.mem_cons.mp hmem with rfl | hmem
    · exact ⟨_, hd⟩
    · exact ih d hmem
  | member _ hd _ _ => simpa [Part.InnerRead] using ⟨_, hd⟩
  | members _ hd _ _ _ _ ih =>
    intro m hmem
    rcases List.mem_cons.mp hmem with rfl | hmem
    · exact ⟨_, hd⟩
    · exact ih m hmem
  | _ => trivial

theorem Reads.of_member {s : Bytes} {d e : Doc} {key : Bytes} (h : Reads s (.value d))
    (he : d.member key = some e) : ∃ t, Reads t (.value e) := by
  cases h with
  | object _ hms =>
    obtain ⟨before, after, hsplit, -⟩ := List.lookup_eq_some_iff.mp he
    have hmem := List.mem_reverse.mp (by rw [hsplit]; simp : (key, e) ∈ List.reverse _)
    exact hms.inner _ hmem
  | _ => simp [Doc.member] at he

theorem Reads.isNumber {s : Bytes} {n : Numeral} (h : Reads s (.value (.number n))) : IsNumber n := by
  generalize hp : Part.value (.number n) = p at h
  cases h <;> cases hp
  assumption

theorem Reads.number_item {s : Bytes} {items : List Doc} {n : Numeral}
    (h : Reads s (.value (.array items))) (hn : Doc.number n ∈ items) : IsNumber n := by
  cases h with
  | emptyArray => cases hn
  | array _ hds =>
    obtain ⟨t, ht⟩ := hds.inner _ hn
    exact ht.isNumber

/-! ## What is found -/

section

variable {t : Bytes} {d : Doc} {key : Bytes}

theorem find_string {s : Bytes} :
    d.meaning.find key = some (.string s) ↔ d.member key = some (.string s) := by
  rw [find_meaning]
  cases d.member key with
  | none => simp
  | some e => cases e <;> simp [Doc.meaning]

theorem find_array {items : List Value} : d.meaning.find key = some (.array items) ↔
    ∃ ds, d.member key = some (.array ds) ∧ ds.map Doc.meaning = items := by
  rw [find_meaning]
  cases d.member key with
  | none => simp
  | some e => cases e <;> simp [Doc.meaning, itemsMeaning_eq]

theorem IsText.number {n : Numeral} (h : IsText t d) (hn : d.member key = some (.number n)) :
    IsNumber n := by
  obtain ⟨_, _, _, _, hd, _, _⟩ := h
  obtain ⟨s, hs⟩ := hd.of_member hn
  exact hs.isNumber

/-- A number is read as the double that is nearest to it. -/
theorem IsText.find_number {x : Double} (h : IsText t d) : d.meaning.find key = some (.number x) ↔
    ∃ n, d.member key = some (.number n) ∧ nearest n = x := by
  rw [find_meaning]
  cases hmember : d.member key with
  | none => simp
  | some e =>
    cases e with
    | number n =>
      have hspelled := (h.number hmember).1
      simp [Doc.meaning, strtod_text n hspelled]
    | _ => simp [Doc.meaning]

end

end OakBarrels.Json
