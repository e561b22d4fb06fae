import OakBarrels.Json.Members
import OakBarrels.Json.RoundTrip
import OakBarrels.Lib.Pointwise
import OakBarrels.Probe.Profile

/-!
# What a profile document says

A document is accepted whole or not at all. Where it is, the profiles say what its entries say.
-/

open Octets Pointwise

namespace OakBarrels.Probe

open Json

/-! ## Names -/

inductive IsRole : Bytes → Role → Prop
  | post : IsRole (ascii "post") .post
  | set : IsRole (ascii "set") .set
  | bulk : IsRole (ascii "bulk") .bulk

inductive IsShape : Bytes → SymbolShape → Prop
  | level : IsShape (ascii "level") .level
  | name : IsShape (ascii "name") .name
  | sink : IsShape (ascii "sink") .sink

theorem roleFromName_eq {name : Bytes} {role : Role} :
    roleFromName name = some role ↔ IsRole name role := by
  constructor
  · intro h
    unfold roleFromName at h
    split_ifs at h with hpost hset hbulk
    · cases h; subst hpost; exact .post
    · cases h; subst hset; exact .set
    · cases h; subst hbulk; exact .bulk
  · rintro (_ | _ | _) <;> decide

theorem symbolShapeFromName_eq {name : Bytes} {shape : SymbolShape} :
    symbolShapeFromName name = some shape ↔ IsShape name shape := by
  constructor
  · intro h
    unfold symbolShapeFromName at h
    split_ifs at h with hlevel hname hsink
    · cases h; subst hlevel; exact .level
    · cases h; subst hname; exact .name
    · cases h; subst hsink; exact .sink
  · rintro (_ | _ | _) <;> decide

/-- Each role has one name. -/
theorem IsRole.name_unique {name name' : Bytes} {role : Role} (h : IsRole name role)
    (h' : IsRole name' role) : name = name' := by
  cases h <;> cases h' <;> rfl

theorem IsRole.unique {name : Bytes} {role role' : Role} (h : IsRole name role)
    (h' : IsRole name role') : role = role' :=
  Option.some.inj ((roleFromName_eq.mpr h).symm.trans (roleFromName_eq.mpr h'))

/-! ## A document that is accepted

Only an object has members. -/

structure AcceptableBinding (raw : Doc) : Prop where
  role : ∃ name role, raw.member (ascii "role") = some (.string name) ∧ IsRole name role
  shape : ∃ name shape, raw.member (ascii "shape") = some (.string name) ∧ IsShape name shape
  symbol : ∃ symbol ≠ [], raw.member (ascii "symbol") = some (.string symbol)

/-- Two bindings that name one role. -/
def SameRole (raw other : Doc) : Prop :=
  ∃ name, raw.member (ascii "role") = some (.string name) ∧
    other.member (ascii "role") = some (.string name)

structure AcceptableEntry (entry : Doc) : Prop where
  named : ∃ name ≠ [], entry.member (ascii "class") = some (.string name)
  bindings : ∃ raws ≠ [], entry.member (ascii "bindings") = some (.array raws) ∧
    (∀ raw ∈ raws, AcceptableBinding raw) ∧ raws.Pairwise fun raw other => ¬ SameRole raw other

def Acceptable (d : Doc) : Prop :=
  ∃ entries ≠ [], d.member (ascii "profiles") = some (.array entries) ∧
    ∀ entry ∈ entries, AcceptableEntry entry

/-! ## What it says -/

structure SaysBinding (raw : Doc) (b : Binding) : Prop where
  role : ∃ name, raw.member (ascii "role") = some (.string name) ∧ IsRole name b.role
  shape : ∃ name, raw.member (ascii "shape") = some (.string name) ∧ IsShape name b.shape
  symbol : raw.member (ascii "symbol") = some (.string b.symbol)
  nonempty : b.symbol ≠ []

structure SaysProfile (entry : Doc) (p : Profile) : Prop where
  named : entry.member (ascii "class") = some (.string p.capabilityClass)
  nonempty : p.capabilityClass ≠ []
  bindings : ∃ raws ≠ [], entry.member (ascii "bindings") = some (.array raws) ∧
    List.Forall₂ SaysBinding raws p.bindings
  roles : (p.bindings.map Binding.role).Nodup

/-- One profile for each entry, in order. -/
def Says (d : Doc) (profiles : List Profile) : Prop :=
  ∃ entries ≠ [], d.member (ascii "profiles") = some (.array entries) ∧
    List.Forall₂ SaysProfile entries profiles

/-! ## Members -/

theorem stringMember_eq {entry : Doc} {key s : Bytes} :
    stringMember entry.meaning key = some s ↔ entry.member key = some (.string s) := by
  rw [← find_string]
  unfold stringMember
  cases entry.meaning.find key with
  | none => simp
  | some raw => cases raw <;> simp [Value.isString, Value.asString]

theorem arrayMember_eq {entry : Doc} {key : Bytes} {items : List Value} :
    arrayMember entry.meaning key = some items ↔
      ∃ ds, entry.member key = some (.array ds) ∧ ds.map Doc.meaning = items := by
  rw [← find_array]
  unfold arrayMember
  cases entry.meaning.find key with
  | none => simp
  | some raw => cases raw <;> simp [Value.isArray, Value.asArray]

theorem isObject_of_member {entry e : Doc} {key : Bytes} (h : entry.member key = some e) :
    entry.meaning.isObject = true := by
  cases entry with
  | object members => simp [Doc.meaning, Value.isObject]
  | _ => simp [Doc.member] at h

theorem guard_eq {p : Prop} [Decidable p] {u : Unit} : (guard p : Option Unit) = some u ↔ p := by
  unfold guard
  split <;> simp_all

theorem bindingFor_eq_none {p : Profile} {role : Role} :
    p.bindingFor role = none ↔ role ∉ p.bindings.map Binding.role := by
  simp [Profile.bindingFor]

/-! ## The parser -/

theorem parseBinding_iff {p p' : Profile} {raw : Doc} : parseBinding p raw.meaning = some p' ↔
    ∃ b, SaysBinding raw b ∧ b.role ∉ p.bindings.map Binding.role ∧
      p' = { p with bindings := p.bindings ++ [b] } := by
  unfold parseBinding
  simp only [Option.bind_eq_bind, Option.bind_eq_some_iff, guard_eq, stringMember_eq,
    bindingFor_eq_none, roleFromName_eq, symbolShapeFromName_eq]
  constructor
  · rintro ⟨-, -, roleName, hrole, shapeName, hshape, symbol, hsymbol, -, hne, role, hknown,
      shape, hshaped, -, hnew, h⟩
    cases h
    exact ⟨⟨role, symbol, shape⟩, ⟨⟨_, hrole, hknown⟩, ⟨_, hshape, hshaped⟩, hsymbol, hne⟩, hnew,
      rfl⟩
  · rintro ⟨b, ⟨⟨roleName, hrole, hknown⟩, ⟨shapeName, hshape, hshaped⟩, hsymbol, hne⟩, hnew, rfl⟩
    exact ⟨(), isObject_of_member hrole, roleName, hrole, shapeName, hshape, b.symbol, hsymbol, (),
      hne, b.role, hknown, b.shape, hshaped, (), hnew, rfl⟩

/-- The loop over bindings, from a profile that has some. -/
theorem parseBindings_iff {raws : List Doc} {p p' : Profile}
    (hroles : (p.bindings.map Binding.role).Nodup) :
    (raws.map Doc.meaning).foldlM parseBinding p = some p' ↔
      ∃ bindings, List.Forall₂ SaysBinding raws bindings ∧
        ((p.bindings ++ bindings).map Binding.role).Nodup ∧
        p' = { p with bindings := p.bindings ++ bindings } := by
  induction raws generalizing p with
  | nil =>
    rw [List.map_nil, List.foldlM_nil]
    constructor
    · intro h
      cases h
      exact ⟨[], .nil, by simpa using hroles, by simp⟩
    · rintro ⟨bindings, h, -, rfl⟩
      cases h
      simp
  | cons raw raws ih =>
    rw [List.map_cons, List.foldlM_cons]
    simp only [Option.bind_eq_bind, Option.bind_eq_some_iff, parseBinding_iff]
    have hnext : ∀ b : Binding, b.role ∉ p.bindings.map Binding.role →
        ((p.bindings ++ [b]).map Binding.role).Nodup := by
      intro b hnew
      simpa using hroles.concat hnew
    constructor
    · rintro ⟨-, ⟨b, hb, hnew, rfl⟩, h⟩
      obtain ⟨bindings, hbindings, hnodup, rfl⟩ := (ih (hnext b hnew)).mp h
      refine ⟨b :: bindings, .cons hb hbindings, ?_, ?_⟩
      · simpa using hnodup
      · simp
    · rintro ⟨_, h, hnodup, rfl⟩
      cases h with
      | @cons _ b _ bindings hb hbindings =>
        have hnew : b.role ∉ p.bindings.map Binding.role := by
          rw [List.map_append, List.nodup_append] at hnodup
          exact fun hmem => hnodup.2.2 b.role hmem b.role (by simp) rfl
        refine ⟨_, ⟨b, hb, hnew, rfl⟩, (ih (hnext b hnew)).mpr ⟨bindings, hbindings, ?_, ?_⟩⟩
        · simpa using hnodup
        · simp

theorem parseBindings_fresh {raws : List Doc} {name : Bytes} {p : Profile} :
    (raws.map Doc.meaning).foldlM parseBinding ⟨name, []⟩ = some p ↔ ∃ bindings,
      List.Forall₂ SaysBinding raws bindings ∧ (bindings.map Binding.role).Nodup ∧
        p = ⟨name, bindings⟩ := parseBindings_iff List.nodup_nil

theorem parseProfile_iff {entry : Doc} {p : Profile} :
    parseProfile entry.meaning = some p ↔ SaysProfile entry p := by
  unfold parseProfile
  simp only [Option.bind_eq_bind, Option.bind_eq_some_iff, guard_eq, stringMember_eq,
    arrayMember_eq]
  constructor
  · rintro ⟨-, -, name, hnamed, -, hne, _, ⟨raws, hraws, rfl⟩, -, hsome, h⟩
    obtain ⟨bindings, hbindings, hroles, rfl⟩ := parseBindings_fresh.mp h
    exact ⟨hnamed, hne, ⟨raws, by simpa using hsome, hraws, hbindings⟩, hroles⟩
  · rintro ⟨hnamed, hne, ⟨raws, hsome, hraws, hbindings⟩, hroles⟩
    exact ⟨(), isObject_of_member hnamed, _, hnamed, (), hne, _, ⟨raws, hraws, rfl⟩, (),
      by simpa using hsome, parseBindings_fresh.mpr ⟨p.bindings, hbindings, hroles, rfl⟩⟩

/-- The loop over profiles, from what is found in the document. -/
theorem says_iff {d : Doc} {profiles : List Profile} :
    Says d profiles ↔ ∃ items, d.meaning.find (ascii "profiles") = some (.array items) ∧
      items.mapM parseProfile = some profiles ∧ profiles ≠ [] := by
  have hparsed : ∀ entries : List Doc, (entries.map Doc.meaning).mapM parseProfile = some profiles ↔
      List.Forall₂ SaysProfile entries profiles := by
    intro entries
    simp only [mapM_eq_some, List.forall₂_map_left_iff, parseProfile_iff]
  constructor
  · rintro ⟨entries, hsome, hentries, h⟩
    refine ⟨_, find_array.mpr ⟨entries, hentries, rfl⟩, (hparsed entries).mpr h, ?_⟩
    rintro rfl
    cases h
    exact hsome rfl
  · rintro ⟨items, hitems, h, hsome⟩
    obtain ⟨entries, hentries, rfl⟩ := find_array.mp hitems
    have hall := (hparsed entries).mp h
    refine ⟨entries, ?_, hentries, hall⟩
    rintro rfl
    cases hall
    exact hsome rfl

/-! ## An acceptable document says something -/

theorem acceptableBinding_iff {raw : Doc} : AcceptableBinding raw ↔ ∃ b, SaysBinding raw b := by
  constructor
  · rintro ⟨⟨roleName, role, hrole, hknown⟩, ⟨shapeName, shape, hshape, hshaped⟩, symbol, hne,
      hsymbol⟩
    exact ⟨⟨role, symbol, shape⟩, ⟨_, hrole, hknown⟩, ⟨_, hshape, hshaped⟩, hsymbol, hne⟩
  · rintro ⟨b, ⟨roleName, hrole, hknown⟩, ⟨shapeName, hshape, hshaped⟩, hsymbol, hne⟩
    exact ⟨⟨_, _, hrole, hknown⟩, ⟨_, _, hshape, hshaped⟩, ⟨_, hne, hsymbol⟩⟩

theorem SaysBinding.sameRole {raw raw' : Doc} {b b' : Binding} (h : SaysBinding raw b)
    (h' : SaysBinding raw' b') : SameRole raw raw' ↔ b.role = b'.role := by
  obtain ⟨name, hname, hrole⟩ := h.role
  obtain ⟨name', hname', hrole'⟩ := h'.role
  constructor
  · rintro ⟨same, hsame, hsame'⟩
    rw [hsame] at hname
    rw [hsame'] at hname'
    cases hname
    cases hname'
    exact hrole.unique hrole'
  · intro heq
    rw [heq] at hrole
    obtain rfl := hrole.name_unique hrole'
    exact ⟨name, hname, hname'⟩

theorem SaysBinding.role_notMem {raw : Doc} {b : Binding} {raws : List Doc}
    {bindings : List Binding} (hb : SaysBinding raw b) (h : List.Forall₂ SaysBinding raws bindings) :
    b.role ∉ bindings.map Binding.role ↔ ∀ other ∈ raws, ¬ SameRole raw other := by
  induction h with
  | nil => simp
  | cons hother _ ih =>
    rw [List.map_cons, List.mem_cons, not_or, List.forall_mem_cons, hb.sameRole hother, ih]

theorem roles_nodup_iff {raws : List Doc} {bindings : List Binding}
    (h : List.Forall₂ SaysBinding raws bindings) : (bindings.map Binding.role).Nodup ↔
      raws.Pairwise fun raw other => ¬ SameRole raw other := by
  induction h with
  | nil => simp
  | cons hb h ih =>
    rw [List.map_cons, List.nodup_cons, List.pairwise_cons, ih, hb.role_notMem h]

theorem acceptableEntry_iff {entry : Doc} : AcceptableEntry entry ↔ ∃ p, SaysProfile entry p := by
  constructor
  · rintro ⟨⟨name, hne, hnamed⟩, raws, hsome, hraws, hall, hroles⟩
    obtain ⟨bindings, hbindings⟩ :=
      exists_forall₂.mpr fun raw hraw => acceptableBinding_iff.mp (hall raw hraw)
    exact ⟨⟨name, bindings⟩, hnamed, hne, ⟨raws, hsome, hraws, hbindings⟩,
      (roles_nodup_iff hbindings).mpr hroles⟩
  · rintro ⟨p, hnamed, hne, ⟨raws, hsome, hraws, hbindings⟩, hroles⟩
    refine ⟨⟨_, hne, hnamed⟩, raws, hsome, hraws, ?_, (roles_nodup_iff hbindings).mp hroles⟩
    intro raw hraw
    exact acceptableBinding_iff.mpr (exists_forall₂.mp ⟨_, hbindings⟩ raw hraw)

theorem acceptable_iff {d : Doc} : Acceptable d ↔ ∃ profiles, Says d profiles := by
  constructor
  · rintro ⟨entries, hsome, hentries, hall⟩
    obtain ⟨profiles, hprofiles⟩ :=
      exists_forall₂.mpr fun entry hentry => acceptableEntry_iff.mp (hall entry hentry)
    exact ⟨profiles, entries, hsome, hentries, hprofiles⟩
  · rintro ⟨profiles, entries, hsome, hentries, hprofiles⟩
    exact ⟨entries, hsome, hentries, fun entry hentry =>
      acceptableEntry_iff.mpr (exists_forall₂.mp ⟨_, hprofiles⟩ entry hentry)⟩

/-! ## The text of a document -/

theorem parseProfiles_iff {text : Bytes} {profiles : List Profile} :
    parseProfiles text = some profiles ↔
      ∃ d, IsText text d ∧ d.height ≤ kMaxParseDepth ∧ Says d profiles := by
  unfold parseProfiles
  simp only [Option.bind_eq_bind, Option.bind_eq_some_iff, guard_eq, says_iff]
  constructor
  · rintro ⟨document, hparse, -, -, items, hitems, ps, hps, -, hsome, h⟩
    cases h
    obtain ⟨d, htext, hheight, rfl⟩ := parse_sound hparse
    have hfind := find_array.mpr (arrayMember_eq.mp hitems)
    exact ⟨d, htext, hheight, items, hfind, hps, hsome⟩
  · rintro ⟨d, htext, hheight, items, hfind, hps, hsome⟩
    have hitems := arrayMember_eq.mpr (find_array.mp hfind)
    obtain ⟨entries, hentries, -⟩ := find_array.mp hfind
    exact ⟨_, parse_complete htext hheight, (), isObject_of_member hentries, items, hitems, profiles,
      hps, (), hsome, rfl⟩

/-- **All or nothing.** A text is accepted exactly if it is a document, nested at most 64 deep, of which
every entry and every binding is acceptable. The profiles are then the ones which the document says. -/
theorem profiles_all_or_nothing (text : Bytes) :
    ((∃ profiles, parseProfiles text = some profiles) ↔
      ∃ d, IsText text d ∧ d.height ≤ 64 ∧ Acceptable d) ∧
      ∀ profiles, parseProfiles text = some profiles ↔
        ∃ d, IsText text d ∧ d.height ≤ 64 ∧ Says d profiles := by
  refine ⟨?_, fun profiles => parseProfiles_iff⟩
  constructor
  · rintro ⟨profiles, h⟩
    obtain ⟨d, htext, hheight, hsays⟩ := parseProfiles_iff.mp h
    exact ⟨d, htext, hheight, acceptable_iff.mpr ⟨profiles, hsays⟩⟩
  · rintro ⟨d, htext, hheight, hacceptable⟩
    obtain ⟨profiles, hsays⟩ := acceptable_iff.mp hacceptable
    exact ⟨profiles, parseProfiles_iff.mpr ⟨d, htext, hheight, hsays⟩⟩

def twoBindings : Bytes :=
  ascii "\x7b\"profiles\":[\x7b\"class\":\"c\",\"bindings\":[" ++
    ascii "\x7b\"role\":\"set\",\"symbol\":\"t\",\"shape\":\"level\"\x7d," ++
    ascii "\x7b\"shape\":\"name\",\"role\":\"post\",\"symbol\":\"f\"\x7d" ++ ascii "]\x7d]\x7d"

theorem profiles_all_or_nothing_two : ∃ d, IsText twoBindings d ∧ d.height ≤ 64 ∧
    Says d [⟨ascii "c", [⟨.set, ascii "t", .level⟩, ⟨.post, ascii "f", .name⟩]⟩] :=
  ((profiles_all_or_nothing twoBindings).2 _).mp (by decide +kernel)

/-! ## Where a document is nested deeper -/

def emptyArrays : Nat → Bytes
  | 0 => ascii "[]"
  | n + 1 => 0x5b :: emptyArrays n ++ [0x5d]

def emptyArraysDoc : Nat → Doc
  | 0 => .array []
  | n + 1 => .array [emptyArraysDoc n]

theorem reads_emptyArrays (n : Nat) : Reads (emptyArrays n) (.value (emptyArraysDoc n)) := by
  induction n with
  | zero => exact .emptyArray whitespace_nil
  | succ n ih =>
    have hitems := Reads.item ih whitespace_nil
    rw [List.append_nil] at hitems
    exact .array whitespace_nil hitems

theorem height_emptyArraysDoc (n : Nat) : (emptyArraysDoc n).height = n := by
  induction n with
  | zero => rfl
  | succ n ih => simp [emptyArraysDoc, Doc.height, itemsDepth, ih]

def oneEntry : Bytes :=
  ascii "[\x7b\"class\":\"c\",\"bindings\":[" ++
    ascii "\x7b\"role\":\"set\",\"symbol\":\"t\",\"shape\":\"level\"\x7d" ++ ascii "]\x7d]"

def shallowText : Bytes := ascii "\x7b\"profiles\":" ++ oneEntry ++ ascii "\x7d"

/-- The same entry behind a member that is nested too deep. -/
def deepText : Bytes :=
  ascii "\x7b\"x\":" ++ emptyArrays 64 ++ ascii ",\"profiles\":" ++ oneEntry ++ ascii "\x7d"

section

variable {w₁ s w₂ : Bytes} {d : Doc} (hw₁ : Whitespace w₁) (hd : Reads s (.value d))
  (hw₂ : Whitespace w₂) (htext : oneEntry = w₁ ++ s ++ w₂)

include hw₁ hd hw₂

theorem reads_entries : Reads (ascii "\"profiles\":" ++ w₁ ++ s ++ w₂)
    (.members [(ascii "profiles", d)]) := by
  refine .member ⟨_, [], w₁, writeEscapedString_isString _, whitespace_nil, hw₁, ?_⟩ hd hw₂
  rfl

include htext

theorem isText_shallowText : IsText shallowText (.object [(ascii "profiles", d)]) := by
  refine ⟨[], _, [], whitespace_nil, .object whitespace_nil (reads_entries hw₁ hd hw₂),
    whitespace_nil, ?_⟩
  simp only [shallowText, htext, List.append_assoc, List.nil_append, List.append_nil]
  rfl

theorem isText_deepText : IsText deepText
    (.object [(ascii "x", emptyArraysDoc 64), (ascii "profiles", d)]) := by
  have hx : IsName (ascii "\"x\":") (ascii "x") :=
    ⟨_, [], [], writeEscapedString_isString _, whitespace_nil, whitespace_nil, rfl⟩
  have hmembers := Reads.members hx (reads_emptyArrays 64) whitespace_nil whitespace_nil
    (reads_entries hw₁ hd hw₂)
  refine ⟨[], _, [], whitespace_nil, .object whitespace_nil hmembers, whitespace_nil, ?_⟩
  simp only [deepText, htext, List.append_assoc, List.cons_append, List.nil_append,
    List.append_nil]
  rfl

end

/-- The document of `deepText` is acceptable, and it is refused. -/
theorem not_all_profiles : ¬ ∀ text, (∃ profiles, parseProfiles text = some profiles) ↔
    ∃ d, IsText text d ∧ Acceptable d := by
  intro h
  obtain ⟨v, hv⟩ : ∃ v, parse oneEntry = some v := Option.isSome_iff_exists.mp (by decide +kernel)
  obtain ⟨d, ⟨w₁, s, w₂, hw₁, hd, hw₂, htext⟩, -, -⟩ := parse_sound hv
  have hdeep := isText_deepText hw₁ hd hw₂ htext
  have hshallow : parseProfiles shallowText = some [⟨ascii "c", [⟨.set, ascii "t", .level⟩]⟩] := by
    decide +kernel
  obtain ⟨d', htext', -, hsays⟩ := parseProfiles_iff.mp hshallow
  obtain rfl := htext'.unique (isText_shallowText hw₁ hd hw₂ htext)
  obtain ⟨profiles, haccepted⟩ := (h deepText).mpr ⟨_, hdeep, acceptable_iff.mpr ⟨_, hsays⟩⟩
  obtain ⟨d', hother, hheight, -⟩ := parseProfiles_iff.mp haccepted
  obtain rfl := hdeep.unique hother
  simp [Doc.height, membersDepth, height_emptyArraysDoc, kMaxParseDepth] at hheight

end OakBarrels.Probe
