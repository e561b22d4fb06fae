import OakBarrels.Json.RoundTrip
import OakBarrels.Session

/-!
# What a reply carries

The numbers of a reply as its reader finds them in the text.
-/

open Octets Binary64

namespace OakBarrels

open Json Protocol

/-- The text is an object with an integer under a name. -/
def Carries (payload key : Bytes) (n : Int) : Prop :=
  ∃ v x, parse payload = some v ∧ v.find key = some (.number x) ∧ x.value = some (n : ℚ)

theorem lookup_alike {a b : List (Bytes × Value)} (h : membersAlike a b) {key : Bytes} {u : Value}
    (hu : b.lookup key = some u) : ∃ t, a.lookup key = some t ∧ t.Alike u := by
  induction a generalizing b with
  | nil =>
    cases b with
    | nil => cases hu
    | cons m b => simp [membersAlike] at h
  | cons m a ih =>
    cases b with
    | nil => cases hu
    | cons n b =>
      obtain ⟨hname, halike, hrest⟩ := h
      rw [List.lookup_cons] at hu ⊢
      rw [show m.1 = n.1 from hname]
      split at hu
      · cases hu
        exact ⟨_, rfl, halike⟩
      · exact ih hrest hu

theorem lookup_finiteOrNull {members : List (Bytes × Value)} {key : Bytes} {u : Value}
    (h : members.lookup key = some u) :
    (membersFiniteOrNull members).lookup key = some u.finiteOrNull := by
  induction members with
  | nil => cases h
  | cons m rest ih =>
    rw [List.lookup_cons] at h
    rw [membersFiniteOrNull, List.lookup_cons]
    split at h
    · cases h
      rfl
    · exact ih h

/-- What is under a name in an object is found there in its text. -/
theorem find_dump {v : Value} (hv : v.Distinct) (hheight : v.height ≤ 64) {key : Bytes} {u : Value}
    (h : v.find key = some u) :
    ∃ w t, parse v.dump = some w ∧ w.find key = some t ∧ t.Alike u.finiteOrNull := by
  obtain ⟨w, hparse, -, halike⟩ := parse_dump_alike hv hheight
  cases v with
  | object members =>
    cases w with
    | object found =>
      obtain ⟨t, ht, hu⟩ := lookup_alike halike (lookup_finiteOrNull h)
      exact ⟨_, t, hparse, ht, hu⟩
    | _ => simp [Value.finiteOrNull, Value.Alike] at halike
  | _ => cases h

theorem carries_dump {v : Value} (hv : Built v) (hheight : v.height ≤ 64) {key : Bytes} {k : Int64}
    (h : v.find key = some (.integer k)) (hk : k.toInt.natAbs < 2 ^ 53) :
    Carries v.dump key k.toInt := by
  obtain ⟨w, t, hparse, hfind, halike⟩ := find_dump hv.distinct hheight h
  have hfinite : (Value.integer k).finiteOrNull = .number (.ofInt k.toInt) := by
    rw [Value.integer, Value.finiteOrNull, ofInt_exact _ hk]
    rfl
  rw [hfinite] at halike
  cases t with
  | number x => exact ⟨w, x, hparse, hfind, value_of_beq halike (ofInt_value _ hk)⟩
  | _ => exact absurd halike (by simp [Value.Alike])

/-! ## The replies of a session -/

namespace World

theorem errorPayload_eq (reason : Reason) :
    errorPayload reason = .object
      [(ascii "reason", .integer (Int64.ofNat reason.code.toNat)),
        (ascii "detail", .string (reasonSummary reason))] := rfl

theorem statusPayload_eq (handle : UInt32) (reason : Reason) :
    statusPayload handle reason = .object
      [(ascii "handle", .integer (Int64.ofNat handle.toNat)),
        (ascii "reason", .integer (Int64.ofNat reason.code.toNat))] := rfl

theorem code_toInt (n : UInt32) : (Int64.ofNat n.toNat).toInt = n.toNat := by
  have := n.toNat_lt
  rw [Int64.toInt_ofNat_of_lt (by omega)]

theorem errorPayload_carries (reason : Reason) :
    Carries (errorPayload reason).dump (ascii "reason") reason.code.toNat := by
  have hbuilt : Built (errorPayload reason) :=
    (Built.object.set _ (Built.integer _)).set _ (Built.string _)
  have hcode := code_toInt reason.code
  have hlt := reason.code.toNat_lt
  rw [← hcode]
  refine carries_dump hbuilt ?_ ?_ (by omega)
  · rw [errorPayload_eq]
    simp [Value.height, membersHeight, Value.integer]
  · rw [errorPayload_eq]
    rfl

theorem statusPayload_carries (handle : UInt32) (reason : Reason) :
    Carries (statusPayload handle reason).dump (ascii "handle") handle.toNat ∧
      Carries (statusPayload handle reason).dump (ascii "reason") reason.code.toNat := by
  have hbuilt : Built (statusPayload handle reason) :=
    (Built.object.set _ (Built.integer _)).set _ (Built.integer _)
  have hheight : (statusPayload handle reason).height ≤ 64 := by
    rw [statusPayload_eq]
    simp [Value.height, membersHeight, Value.integer]
  have hhandle := code_toInt handle
  have hcode := code_toInt reason.code
  have hhandle_lt := handle.toNat_lt
  have hcode_lt := reason.code.toNat_lt
  refine ⟨?_, ?_⟩
  · rw [← hhandle]
    exact carries_dump hbuilt hheight rfl (by omega)
  · rw [← hcode]
    exact carries_dump hbuilt hheight rfl (by omega)

end World

end OakBarrels
