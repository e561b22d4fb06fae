import OakBarrels.Discovery.Scanner
import OakBarrels.Lib.Sorted

/-!
# What a scan finds

The walk against the list of all files beneath the roots: whatever the limits, it takes a part of
that list in its order, and all of it where the result is not marked as truncated.
-/

open Octets Decimal Sorted

namespace OakBarrels.Discovery

/-! ## The order of the entries -/

theorem nameLe_cons (x y : Byte) (a b : Bytes) :
    nameLe (x :: a) (y :: b) = true ↔ x < y ∨ x = y ∧ nameLe a b = true := by
  simp [nameLe]

theorem nameLe_total (a b : Bytes) : nameLe a b = true ∨ nameLe b a = true := by
  induction a generalizing b with
  | nil => exact .inl (by unfold nameLe; rfl)
  | cons x a ih =>
    cases b with
    | nil => exact .inr (by unfold nameLe; rfl)
    | cons y b =>
      rw [nameLe_cons, nameLe_cons]
      by_cases hxy : x = y
      · subst hxy
        exact (ih b).imp (fun h => .inr ⟨rfl, h⟩) fun h => .inr ⟨rfl, h⟩
      · exact (UInt8.lt_or_lt_of_ne hxy).imp .inl .inl

theorem nameLe_antisymm (a b : Bytes) (h : nameLe a b = true) (h' : nameLe b a = true) :
    a = b := by
  induction a generalizing b with
  | nil =>
    cases b with
    | nil => rfl
    | cons y b => simp [nameLe] at h'
  | cons x a ih =>
    cases b with
    | nil => simp [nameLe] at h
    | cons y b =>
      rw [nameLe_cons] at h h'
      rcases h with h | ⟨rfl, h⟩
      · rcases h' with h' | ⟨rfl, -⟩
        · exact absurd h' (UInt8.lt_asymm h)
        · exact absurd h (UInt8.lt_irrefl _)
      · rcases h' with h' | ⟨-, h'⟩
        · exact absurd h' (UInt8.lt_irrefl _)
        · rw [ih b h h']

theorem nameLe_trans (a b c : Bytes) (h : nameLe a b = true) (h' : nameLe b c = true) :
    nameLe a c = true := by
  induction a generalizing b c with
  | nil =>
    unfold nameLe
    rfl
  | cons x a ih =>
    cases b with
    | nil => simp [nameLe] at h
    | cons y b =>
      cases c with
      | nil => simp [nameLe] at h'
      | cons z c =>
        rw [nameLe_cons] at h h' ⊢
        rcases h with h | ⟨rfl, h⟩
        · rcases h' with h' | ⟨rfl, -⟩
          · exact .inl (UInt8.lt_trans h h')
          · exact .inl h
        · rcases h' with h' | ⟨rfl, h'⟩
          · exact .inl h'
          · exact .inr ⟨rfl, ih b c h h'⟩

theorem nameLe_order : Order nameLe :=
  ⟨nameLe_trans, fun a b => by simpa using nameLe_total a b, nameLe_antisymm⟩

abbrev Entry := Bytes × FileEntry

def sorted (entries : List Entry) : List Entry := sortBy nameLe Prod.fst entries

/-- What `walk` does with an entry of the directory at `path`. -/
def visit (maxFiles levels : Nat) (path : Bytes) (entry : Entry) (result : ScanResult) :
    ScanResult :=
  match entry.2 with
  | .directory inner => walk maxFiles levels (join path entry.1) inner result
  | .file content => examine (join path entry.1) content result
  | .symlink | .other | .noStatus => result

theorem walk_some (maxFiles levels : Nat) (path : Bytes) (entries : List Entry)
    (result : ScanResult) : walk maxFiles (levels + 1) path (some entries) result =
      if maxFiles ≤ result.filesExamined then { result with truncated := true }
      else visitEntries maxFiles (visit maxFiles levels path) (sorted entries) result := rfl

/-! ## Enumeration orders -/

/-- The same tree, with the entries of its directories enumerated in another order. -/
inductive Reordered : FileEntry → FileEntry → Prop
  | same (entry : FileEntry) : Reordered entry entry
  | directory {entries entries' : List Entry} (pairs : List (Bytes × FileEntry × FileEntry)) :
      (pairs.map Prod.fst).Nodup → (∀ pair ∈ pairs, Reordered pair.2.1 pair.2.2) →
      entries.Perm (pairs.map fun pair => (pair.1, pair.2.1)) →
      entries'.Perm (pairs.map fun pair => (pair.1, pair.2.2)) →
      Reordered (.directory (some entries)) (.directory (some entries'))

theorem visitEntries_congr {α : Type} {maxFiles : Nat} {visit : Entry → ScanResult → ScanResult}
    (f g : α → Entry) (l : List α) (h : ∀ a ∈ l, visit (f a) = visit (g a)) (result : ScanResult) :
    visitEntries maxFiles visit (l.map f) result
      = visitEntries maxFiles visit (l.map g) result := by
  induction l generalizing result with
  | nil => rfl
  | cons a rest ih =>
    rw [List.forall_mem_cons] at h
    simp only [List.map_cons, visitEntries]
    split
    · rfl
    · rw [h.1]
      exact ih h.2 _

theorem sorted_pairs {entries : List Entry} {pairs : List (Bytes × FileEntry × FileEntry)}
    (side : FileEntry × FileEntry → FileEntry) (hnodup : (pairs.map Prod.fst).Nodup)
    (hperm : entries.Perm (pairs.map fun pair => (pair.1, side pair.2))) :
    sorted entries = (sortBy nameLe Prod.fst pairs).map fun pair => (pair.1, side pair.2) := by
  have hnames : (entries.map Prod.fst).Nodup := by
    refine (hperm.map Prod.fst).nodup_iff.mpr ?_
    rw [List.map_map]
    exact hnodup
  have hmap : sorted (pairs.map fun pair => (pair.1, side pair.2))
      = (sortBy nameLe Prod.fst pairs).map fun pair => (pair.1, side pair.2) :=
    sortBy_map _ (fun _ => rfl) pairs
  rw [← hmap]
  exact sortBy_eq_of_perm nameLe_order hperm hnames

theorem walk_reordered (maxFiles levels : Nat) {entries entries' : Option (List Entry)}
    (h : Reordered (.directory entries) (.directory entries')) (path : Bytes)
    (result : ScanResult) :
    walk maxFiles levels path entries result = walk maxFiles levels path entries' result := by
  induction levels generalizing entries entries' path result with
  | zero => rfl
  | succ levels ih =>
    cases h with
    | same _ => rfl
    | directory pairs hnodup hpairs hperm hperm' =>
      have hvisit : ∀ pair ∈ sortBy nameLe Prod.fst pairs,
          visit maxFiles levels path (pair.1, pair.2.1)
            = visit maxFiles levels path (pair.1, pair.2.2) := by
        rintro ⟨name, inner, inner'⟩ hpair
        funext result
        have hsame : Reordered inner inner' := hpairs _ (mem_sortBy.mp hpair)
        cases hsame with
        | same _ => rfl
        | directory pairs hnodup hpairs hperm hperm' =>
          exact ih (.directory pairs hnodup hpairs hperm hperm') (join path name) result
      rw [walk_some, walk_some, sorted_pairs Prod.fst hnodup hperm,
        sorted_pairs Prod.snd hnodup hperm']
      split
      · rfl
      · exact visitEntries_congr _ _ _ hvisit result

theorem scanRoots_reordered {lookup lookup' : Bytes → FileEntry} (limits : ScanLimits)
    {roots : List Bytes} (h : ∀ root ∈ roots, Reordered (lookup root) (lookup' root))
    (result : ScanResult) :
    scanRoots lookup' limits roots result = scanRoots lookup limits roots result := by
  induction roots generalizing result with
  | nil => rfl
  | cons root rest ih =>
    rw [List.forall_mem_cons] at h
    obtain ⟨hroot, hrest⟩ := h
    unfold scanRoots
    split
    · rfl
    · generalize lookup root = entry at hroot
      generalize lookup' root = entry' at hroot
      cases hroot with
      | same _ =>
        cases entry with
        | directory entries => exact ih hrest _
        | _ => exact ih hrest _
      | directory pairs hnodup hpairs hperm hperm' =>
        simp only
        rw [walk_reordered _ _ (.directory pairs hnodup hpairs hperm hperm'), ih hrest]

/-! ## The files beneath a root -/

/-- A regular file: its path and its content. -/
abbrev Listed := Bytes × Bytes

/-- The files of a directory and so many levels of others beneath it, in the order of the walk. -/
def listing : Nat → Bytes → Option (List Entry) → List Listed
  | 0, _, _ => []
  | _ + 1, _, none => []
  | levels + 1, path, some entries => (sorted entries).flatMap fun entry =>
    match entry.2 with
    | .directory inner => listing levels (join path entry.1) inner
    | .file content => [(join path entry.1, content)]
    | .symlink | .other | .noStatus => []

/-- Those of one entry. -/
def listed (levels : Nat) (path : Bytes) (entry : Entry) : List Listed :=
  match entry.2 with
  | .directory inner => listing levels (join path entry.1) inner
  | .file content => [(join path entry.1, content)]
  | .symlink | .other | .noStatus => []

theorem listing_some (levels : Nat) (path : Bytes) (entries : List Entry) :
    listing (levels + 1) path (some entries) = (sorted entries).flatMap (listed levels path) := rfl

def rootListing (lookup : Bytes → FileEntry) (levels : Nat) (root : Bytes) : List Listed :=
  match lookup root with
  | .directory entries => listing levels root entries
  | _ => []

/-- A file lies at these names below an entry, through directories only. -/
inductive Lies : FileEntry → List Bytes → Bytes → Prop
  | file (content : Bytes) : Lies (.file content) [] content
  | inside {entries : List Entry} {entry : Entry} {names : List Bytes} {content : Bytes} :
      entry ∈ entries → Lies entry.2 names content →
      Lies (.directory (some entries)) (entry.1 :: names) content

theorem mem_listing {levels : Nat} {path : Bytes} {entries : Option (List Entry)} {file : Listed}
    (h : file ∈ listing levels path entries) :
    ∃ directories name, directories.length < levels ∧
      Lies (.directory entries) (directories ++ [name]) file.2 ∧
      file.1 = (directories ++ [name]).foldl join path := by
  induction levels generalizing path entries with
  | zero => cases h
  | succ levels ih =>
    cases entries with
    | none => cases h
    | some entries =>
      rw [listing_some, List.mem_flatMap] at h
      obtain ⟨⟨name, inner⟩, hentry, hfile⟩ := h
      rw [sorted, mem_sortBy] at hentry
      unfold listed at hfile
      cases inner with
      | directory inner =>
        obtain ⟨directories, last, hlength, hlies, hpath⟩ := ih hfile
        exact ⟨name :: directories, last, Nat.succ_lt_succ hlength, .inside hentry hlies, hpath⟩
      | file content =>
        rw [List.mem_singleton] at hfile
        subst hfile
        exact ⟨[], name, Nat.succ_pos levels, .inside hentry (.file content), rfl⟩
      | symlink => cases hfile
      | other => cases hfile
      | noStatus => cases hfile

theorem Lies.isDirectory {entry : FileEntry} {names : List Bytes} {content : Bytes}
    (h : Lies entry names content) (hnames : names ≠ []) : ∃ inner, entry = .directory inner := by
  cases h with
  | file => exact absurd rfl hnames
  | inside => exact ⟨_, rfl⟩

theorem mem_listing_of_lies {levels : Nat} {path : Bytes} {entries : Option (List Entry)}
    {directories : List Bytes} {name content : Bytes}
    (h : Lies (.directory entries) (directories ++ [name]) content)
    (hlevels : directories.length < levels) :
    ((directories ++ [name]).foldl join path, content) ∈ listing levels path entries := by
  induction directories generalizing levels path entries with
  | nil =>
    obtain ⟨levels, rfl⟩ := Nat.exists_eq_succ_of_ne_zero (Nat.ne_zero_of_lt hlevels)
    cases h with
    | @inside entries entry _ _ hentry hlies =>
      rw [listing_some, List.mem_flatMap]
      refine ⟨entry, (mem_sortBy).mpr hentry, ?_⟩
      obtain ⟨name, inner⟩ := entry
      cases hlies
      exact List.mem_singleton.mpr rfl
  | cons directory directories ih =>
    obtain ⟨levels, rfl⟩ := Nat.exists_eq_succ_of_ne_zero (Nat.ne_zero_of_lt hlevels)
    cases h with
    | @inside entries entry _ _ hentry hlies =>
      rw [listing_some, List.mem_flatMap]
      refine ⟨entry, (mem_sortBy).mpr hentry, ?_⟩
      obtain ⟨directory, inner⟩ := entry
      obtain ⟨inner, rfl⟩ := hlies.isDirectory (by simp)
      exact ih hlies (Nat.lt_of_succ_lt_succ hlevels)

/-! ## Files examined -/

def examineAll (files : List Listed) (result : ScanResult) : ScanResult :=
  files.foldl (fun result file => examine file.1 file.2 result) result

def formatOf (content : Bytes) : ModuleFormat :=
  identifyModuleFormat (content.take kModuleHeaderBytes)

def isModule (file : Listed) : Bool := isLoadableModuleFormat (formatOf file.2)

theorem examine_eq (path content : Bytes) (result : ScanResult) :
    examine path content result =
      { candidates := result.candidates ++ if isModule (path, content) then
            [⟨ascii "cand-" ++ decimal (result.candidates.length + 1), path, formatOf content⟩]
          else []
        filesExamined := result.filesExamined + 1
        truncated := result.truncated } := by
  unfold examine isModule formatOf
  simp only
  cases isLoadableModuleFormat (identifyModuleFormat (content.take kModuleHeaderBytes)) with
  | false => simp
  | true => simp

theorem examineAll_truncated (files : List Listed) (result : ScanResult) (truncated : Bool) :
    examineAll files { result with truncated } = { examineAll files result with truncated } := by
  induction files generalizing result with
  | nil => rfl
  | cons file rest ih =>
    unfold examineAll at ih ⊢
    rw [List.foldl_cons, List.foldl_cons, ← ih, examine_eq, examine_eq]

theorem examineAll_append (files files' : List Listed) (result : ScanResult) :
    examineAll (files ++ files') result = examineAll files' (examineAll files result) :=
  List.foldl_append

theorem examineAll_paths (files : List Listed) (result : ScanResult) :
    (examineAll files result).candidates.map Candidate.path
      = result.candidates.map Candidate.path ++ (files.filter isModule).map Prod.fst := by
  induction files generalizing result with
  | nil => simp [examineAll]
  | cons file rest ih =>
    change (examineAll rest (examine file.1 file.2 result)).candidates.map Candidate.path = _
    rw [ih, examine_eq, List.filter_cons]
    simp only [List.map_append, List.append_assoc]
    split
    · rfl
    · rfl

theorem examineAll_mem {files : List Listed} {result : ScanResult} {candidate : Candidate}
    (h : candidate ∈ (examineAll files result).candidates) :
    candidate ∈ result.candidates ∨ ∃ file ∈ files, isModule file = true ∧
      candidate.path = file.1 ∧ candidate.format = formatOf file.2 := by
  induction files generalizing result with
  | nil => exact .inl h
  | cons file rest ih =>
    rcases ih h with hold | ⟨file', hfile', hmodule⟩
    · change candidate ∈ (examine file.1 file.2 result).candidates at hold
      rw [examine_eq, List.mem_append] at hold
      rcases hold with hold | hnew
      · exact .inl hold
      · split at hnew
        · rename_i hmodule
          rw [List.mem_singleton] at hnew
          subst hnew
          exact .inr ⟨file, List.mem_cons_self, hmodule, rfl, rfl⟩
        · cases hnew
    · exact .inr ⟨file', List.mem_cons_of_mem _ hfile', hmodule⟩

theorem examineAll_keeps (files : List Listed) (result : ScanResult) :
    result.candidates ⊆ (examineAll files result).candidates := by
  induction files generalizing result with
  | nil => exact List.Subset.refl _
  | cons file rest ih =>
    refine List.Subset.trans ?_ (ih (examine file.1 file.2 result))
    rw [examine_eq]
    exact List.subset_append_left _ _

theorem mem_examineAll {files : List Listed} {file : Listed} (hfile : file ∈ files)
    (hmodule : isModule file = true) (result : ScanResult) :
    ∃ candidate ∈ (examineAll files result).candidates,
      candidate.path = file.1 ∧ candidate.format = formatOf file.2 := by
  obtain ⟨before, after, rfl⟩ := List.append_of_mem hfile
  have hnew : ∃ candidate ∈ (examine file.1 file.2 (examineAll before result)).candidates,
      candidate.path = file.1 ∧ candidate.format = formatOf file.2 := by
    rw [examine_eq, if_pos hmodule]
    exact ⟨_, List.mem_append_right _ (List.mem_singleton_self _), rfl, rfl⟩
  obtain ⟨candidate, hcandidate, hsame⟩ := hnew
  rw [examineAll_append]
  exact ⟨candidate, examineAll_keeps after _ hcandidate, hsame⟩

/-- The candidates are numbered from one. -/
def Numbered (candidates : List Candidate) : Prop :=
  ∀ k candidate, candidates[k]? = some candidate →
    candidate.id = ascii "cand-" ++ decimal (k + 1)

theorem examine_numbered {result : ScanResult} (h : Numbered result.candidates)
    (path content : Bytes) : Numbered (examine path content result).candidates := by
  rw [examine_eq]
  intro k candidate hk
  rcases Nat.lt_trichotomy k result.candidates.length with hlt | rfl | hgt
  · rw [List.getElem?_append_left hlt] at hk
    exact h k candidate hk
  · rw [List.getElem?_append_right le_rfl, Nat.sub_self] at hk
    split at hk
    · obtain rfl := Option.some.inj hk
      rfl
    · cases hk
  · rw [List.getElem?_eq_none] at hk
    · cases hk
    · rw [List.length_append]
      split
      · exact hgt
      · exact hgt.le

theorem examineAll_numbered {result : ScanResult} (h : Numbered result.candidates)
    (files : List Listed) : Numbered (examineAll files result).candidates := by
  induction files generalizing result with
  | nil => exact h
  | cons file rest ih => exact ih (examine_numbered h file.1 file.2)

/-! ## Parts of a listing -/

/-- Between two results some of these files were examined in their order, and all of them where the
second is not truncated. -/
def Part (files : List Listed) (result result' : ScanResult) : Prop :=
  ∃ taken, taken.Sublist files ∧
    result' = { examineAll taken result with truncated := result'.truncated } ∧
    (result'.truncated = false → taken = files ∧ result.truncated = false)

theorem Part.cut (files : List Listed) (result : ScanResult) :
    Part files result { result with truncated := true } :=
  ⟨[], List.nil_sublist files, rfl, fun h => by cases h⟩

theorem Part.nothing (result : ScanResult) : Part [] result result :=
  ⟨[], List.nil_sublist [], rfl, fun h => ⟨rfl, h⟩⟩

theorem Part.examined (path content : Bytes) (result : ScanResult) :
    Part [(path, content)] result (examine path content result) := by
  refine ⟨[(path, content)], List.Sublist.refl _, rfl, fun h => ⟨rfl, ?_⟩⟩
  rw [examine_eq] at h
  exact h

theorem Part.append {files files' : List Listed} {result result' result'' : ScanResult}
    (h : Part files result result') (h' : Part files' result' result'') :
    Part (files ++ files') result result'' := by
  obtain ⟨taken, hsublist, hresult, hwhole⟩ := h
  obtain ⟨taken', hsublist', hresult', hwhole'⟩ := h'
  refine ⟨taken ++ taken', hsublist.append hsublist', ?_, ?_⟩
  · rw [hresult', hresult, examineAll_truncated, examineAll_append]
  · intro huncut
    obtain ⟨rfl, huncut'⟩ := hwhole' huncut
    obtain ⟨rfl, hbefore⟩ := hwhole huncut'
    exact ⟨rfl, hbefore⟩

theorem visitEntries_part {maxFiles : Nat} {visit : Entry → ScanResult → ScanResult}
    {files : Entry → List Listed}
    (h : ∀ entry result, Part (files entry) result (visit entry result)) (entries : List Entry)
    (result : ScanResult) :
    Part (entries.flatMap files) result (visitEntries maxFiles visit entries result) := by
  induction entries generalizing result with
  | nil => exact .nothing result
  | cons entry rest ih =>
    unfold visitEntries
    split
    · exact .cut _ result
    · rw [List.flatMap_cons]
      exact (h entry result).append (ih _)

/-- A walk takes a part of the listing, as deep as that may go. -/
theorem walk_part (maxFiles levels depth : Nat) (h : levels ≤ depth) (path : Bytes)
    (entries : Option (List Entry)) (result : ScanResult) :
    Part (listing depth path entries) result (walk maxFiles levels path entries result) := by
  induction levels generalizing depth path entries result with
  | zero =>
    unfold walk
    exact .cut _ result
  | succ levels ih =>
    cases depth with
    | zero => cases h
    | succ depth =>
      cases entries with
      | none =>
        unfold walk
        split
        · exact .cut _ result
        · exact .nothing result
      | some entries =>
        rw [walk_some, listing_some]
        split
        · exact .cut _ result
        · refine visitEntries_part ?_ (sorted entries) result
          intro entry result
          unfold listed visit
          split
          · exact ih depth (Nat.le_of_succ_le_succ h) _ _ _
          · exact .examined _ _ _
          · exact .nothing _
          · exact .nothing _
          · exact .nothing _

theorem scanRoots_part (lookup : Bytes → FileEntry) (limits : ScanLimits) (depth : Nat)
    (h : limits.maxDepth < depth) (roots : List Bytes) (result : ScanResult) :
    Part (roots.flatMap (rootListing lookup depth)) result
      (scanRoots lookup limits roots result) := by
  induction roots generalizing result with
  | nil => exact .nothing result
  | cons root rest ih =>
    unfold scanRoots
    split
    · exact .cut _ result
    · rw [List.flatMap_cons, rootListing]
      generalize lookup root = entry
      cases entry with
      | directory entries =>
        exact (walk_part limits.maxFiles (limits.maxDepth + 1) depth h root _ result).append (ih _)
      | _ => exact ih result

/-! ## The limit of files -/

theorem visitEntries_examined {maxFiles : Nat} {visit : Entry → ScanResult → ScanResult}
    (h : ∀ entry (result : ScanResult), result.filesExamined < maxFiles →
      (visit entry result).filesExamined ≤ maxFiles)
    (entries : List Entry) {result : ScanResult} (hresult : result.filesExamined ≤ maxFiles) :
    (visitEntries maxFiles visit entries result).filesExamined ≤ maxFiles := by
  induction entries generalizing result with
  | nil => exact hresult
  | cons entry rest ih =>
    unfold visitEntries
    split
    · exact hresult
    · rename_i hbelow
      exact ih (h entry result (Nat.lt_of_not_le hbelow))

theorem walk_examined (maxFiles levels : Nat) (path : Bytes) (entries : Option (List Entry))
    {result : ScanResult} (h : result.filesExamined ≤ maxFiles) :
    (walk maxFiles levels path entries result).filesExamined ≤ maxFiles := by
  induction levels generalizing path entries result with
  | zero => exact h
  | succ levels ih =>
    cases entries with
    | none =>
      unfold walk
      split
      · exact h
      · exact h
    | some entries =>
      rw [walk_some]
      split
      · exact h
      · refine visitEntries_examined ?_ (sorted entries) h
        intro entry result hbelow
        unfold visit
        split
        · exact ih _ _ hbelow.le
        · rw [examine_eq]
          exact hbelow
        · exact hbelow.le
        · exact hbelow.le
        · exact hbelow.le

theorem scanRoots_examined (lookup : Bytes → FileEntry) (limits : ScanLimits) (roots : List Bytes)
    {result : ScanResult} (h : result.filesExamined ≤ limits.maxFiles) :
    (scanRoots lookup limits roots result).filesExamined ≤ limits.maxFiles := by
  induction roots generalizing result with
  | nil => exact h
  | cons root rest ih =>
    unfold scanRoots
    split
    · exact h
    · split
      · exact ih (walk_examined _ _ _ _ h)
      · exact ih h

/-! ## Limits that are never met -/

/-- Nothing is cut, and no more files are examined than this. -/
def Whole (size : Nat) (result result' : ScanResult) : Prop :=
  result'.truncated = false ∧ result'.filesExamined ≤ result.filesExamined + size

noncomputable def totalSize (entries : List Entry) : Nat :=
  (entries.map fun entry => sizeOf entry.2).sum

theorem totalSize_le (entries : List Entry) : totalSize entries ≤ sizeOf entries := by
  induction entries with
  | nil => exact Nat.zero_le _
  | cons entry rest ih =>
    obtain ⟨name, inner⟩ := entry
    unfold totalSize at *
    simp only [List.map_cons, List.sum_cons, List.cons.sizeOf_spec, Prod.mk.sizeOf_spec]
    omega

theorem size_directory (entries : List Entry) :
    totalSize entries + 2 ≤ sizeOf (FileEntry.directory (some entries)) := by
  have hle := totalSize_le entries
  simp only [FileEntry.directory.sizeOf_spec, Option.some.sizeOf_spec]
  omega

theorem totalSize_sorted (entries : List Entry) : totalSize (sorted entries) = totalSize entries :=
  ((sortBy_perm entries).map _).sum_eq

theorem size_le_total {entries : List Entry} {entry : Entry} (h : entry ∈ entries) :
    sizeOf entry.2 ≤ totalSize entries :=
  List.le_sum_of_mem (List.mem_map_of_mem h)

theorem visitEntries_whole {maxFiles : Nat} {visit : Entry → ScanResult → ScanResult}
    (entries : List Entry)
    (h : ∀ entry ∈ entries, ∀ result : ScanResult, result.truncated = false →
      result.filesExamined + sizeOf entry.2 ≤ maxFiles →
      Whole (sizeOf entry.2) result (visit entry result))
    {result : ScanResult} (huncut : result.truncated = false)
    (hroom : result.filesExamined + totalSize entries < maxFiles) :
    Whole (totalSize entries) result (visitEntries maxFiles visit entries result) := by
  induction entries generalizing result with
  | nil => exact ⟨huncut, Nat.le_refl _⟩
  | cons entry rest ih =>
    rw [List.forall_mem_cons] at h
    have htotal : totalSize (entry :: rest) = sizeOf entry.2 + totalSize rest := by
      simp [totalSize]
    rw [htotal] at hroom ⊢
    obtain ⟨hentry, hexamined⟩ := h.1 result huncut (by omega)
    obtain ⟨hrest, hexamined'⟩ := ih h.2 hentry (by omega)
    unfold visitEntries
    rw [if_neg (by omega)]
    exact ⟨hrest, by omega⟩

theorem walk_whole (maxFiles levels : Nat) (path : Bytes) (entries : Option (List Entry))
    (hdeep : sizeOf (FileEntry.directory entries) ≤ levels) {result : ScanResult}
    (huncut : result.truncated = false)
    (hroom : result.filesExamined + sizeOf (FileEntry.directory entries) ≤ maxFiles) :
    Whole (sizeOf (FileEntry.directory entries)) result
      (walk maxFiles levels path entries result) := by
  induction levels generalizing path entries result with
  | zero => simp at hdeep
  | succ levels ih =>
    cases entries with
    | none =>
      unfold walk
      rw [if_neg (by simp at hroom; omega)]
      exact ⟨huncut, Nat.le_add_right _ _⟩
    | some entries =>
      have hsize := size_directory entries
      have hsorted := totalSize_sorted entries
      have hvisit : ∀ entry ∈ sorted entries, ∀ result : ScanResult, result.truncated = false →
          result.filesExamined + sizeOf entry.2 ≤ maxFiles →
          Whole (sizeOf entry.2) result (visit maxFiles levels path entry result) := by
        intro entry hentry result huncut hroom
        have hle := size_le_total hentry
        unfold visit
        split
        · rename_i inner hinner
          rw [hinner] at hroom hle ⊢
          exact ih _ _ (by omega) huncut hroom
        · rename_i content hcontent
          rw [hcontent, examine_eq]
          refine ⟨huncut, ?_⟩
          simp
        · exact ⟨huncut, Nat.le_add_right _ _⟩
        · exact ⟨huncut, Nat.le_add_right _ _⟩
        · exact ⟨huncut, Nat.le_add_right _ _⟩
      obtain ⟨hwhole, hexamined⟩ := visitEntries_whole (sorted entries) hvisit huncut (by omega)
      rw [walk_some, if_neg (by omega)]
      exact ⟨hwhole, by omega⟩

noncomputable def rootsSize (lookup : Bytes → FileEntry) (roots : List Bytes) : Nat :=
  (roots.map fun root => sizeOf (lookup root)).sum

theorem scanRoots_whole (lookup : Bytes → FileEntry) (limits : ScanLimits) (roots : List Bytes)
    (hdeep : rootsSize lookup roots ≤ limits.maxDepth) {result : ScanResult}
    (huncut : result.truncated = false)
    (hroom : result.filesExamined + rootsSize lookup roots < limits.maxFiles) :
    (scanRoots lookup limits roots result).truncated = false := by
  induction roots generalizing result with
  | nil => exact huncut
  | cons root rest ih =>
    have hsize : rootsSize lookup (root :: rest)
        = sizeOf (lookup root) + rootsSize lookup rest := by
      simp [rootsSize]
    rw [hsize] at hdeep hroom
    unfold scanRoots
    rw [if_neg (by omega)]
    generalize lookup root = entry at hdeep hroom
    cases entry with
    | directory entries =>
      obtain ⟨hwhole, hexamined⟩ := walk_whole limits.maxFiles (limits.maxDepth + 1) root entries
        (by omega) huncut (by omega)
      exact ih (by omega) hwhole (by omega)
    | _ => exact ih (by omega) huncut (by omega)

/-! ## The scan -/

/-- A regular file whose header is that of a module, so many directories below a nominated root at
the most, reached through directories only. -/
def Found (lookup : Bytes → FileEntry) (roots : List Bytes) (maxDepth : Nat)
    (candidate : Candidate) : Prop :=
  ∃ root ∈ roots, ∃ directories name content,
    Lies (lookup root) (directories ++ [name]) content ∧ directories.length ≤ maxDepth ∧
    candidate.path = (directories ++ [name]).foldl join root ∧
    candidate.format = identifyModuleFormat (content.take kModuleHeaderBytes) ∧
    isLoadableModuleFormat candidate.format = true

theorem found_of_listed {lookup : Bytes → FileEntry} {roots : List Bytes} {maxDepth : Nat}
    {file : Listed} (hfile : file ∈ roots.flatMap (rootListing lookup (maxDepth + 1)))
    (hmodule : isModule file = true) {candidate : Candidate} (hpath : candidate.path = file.1)
    (hformat : candidate.format = formatOf file.2) : Found lookup roots maxDepth candidate := by
  obtain ⟨root, hroot, hlisted⟩ := List.mem_flatMap.mp hfile
  unfold rootListing at hlisted
  split at hlisted
  · rename_i entries hentries
    obtain ⟨directories, name, hlength, hlies, hjoined⟩ := mem_listing hlisted
    refine ⟨root, hroot, directories, name, file.2, ?_, Nat.le_of_lt_succ hlength,
      hpath.trans hjoined, hformat, ?_⟩
    · rw [hentries]
      exact hlies
    · rw [hformat]
      exact hmodule
  · cases hlisted

theorem listed_of_found {lookup : Bytes → FileEntry} {roots : List Bytes} {maxDepth levels : Nat}
    (hlevels : maxDepth < levels) {candidate : Candidate} (h : Found lookup roots maxDepth candidate) :
    ∃ file ∈ roots.flatMap (rootListing lookup levels), isModule file = true ∧
      candidate.path = file.1 ∧ candidate.format = formatOf file.2 := by
  obtain ⟨root, hroot, directories, name, content, hlies, hdepth, hpath, hformat, hloadable⟩ := h
  refine ⟨(_, content), List.mem_flatMap.mpr ⟨root, hroot, ?_⟩, ?_, hpath, hformat⟩
  · obtain ⟨entries, hentries⟩ := hlies.isDirectory (by simp)
    rw [hentries] at hlies
    unfold rootListing
    rw [hentries]
    exact mem_listing_of_lies hlies (hdepth.trans_lt hlevels)
  · rw [hformat] at hloadable
    exact hloadable

/-- What a scan is a part of. -/
theorem scan_part (lookup : Bytes → FileEntry) (roots : List Bytes) (limits : ScanLimits)
    (depth : Nat) (h : limits.maxDepth < depth) :
    Part (roots.flatMap (rootListing lookup depth)) ⟨[], 0, false⟩
      (scanForCandidates lookup roots limits) := scanRoots_part lookup limits depth h roots _

/-- **A bounded and complete scan.** Over any tree and any roots, with any limits: the order in
which directories are enumerated does not matter, no more files are examined than the limit allows,
every candidate is a module beneath a root within the limit of depth, and they are numbered. There
is a bound from which limits no longer cut anything: every module beneath a root is found with such
limits. The candidates are a part of those found so, in their order, and where the result is not
truncated it is the same. -/
theorem scan_bounded_complete (lookup : Bytes → FileEntry) (roots : List Bytes) :
    ∃ bound, ∀ limits : ScanLimits,
      let result := scanForCandidates lookup roots limits
      (∀ lookup' : Bytes → FileEntry, (∀ root ∈ roots, Reordered (lookup root) (lookup' root)) →
        scanForCandidates lookup' roots limits = result) ∧
      result.filesExamined ≤ limits.maxFiles ∧
      (∀ candidate ∈ result.candidates, Found lookup roots limits.maxDepth candidate) ∧
      (∀ k candidate, result.candidates[k]? = some candidate →
        candidate.id = ascii "cand-" ++ decimal (k + 1)) ∧
      ∀ unlimited : ScanLimits, bound ≤ unlimited.maxFiles → bound ≤ unlimited.maxDepth →
        let whole := scanForCandidates lookup roots unlimited
        whole.truncated = false ∧
        (∀ maxDepth candidate, Found lookup roots maxDepth candidate →
          ∃ found ∈ whole.candidates,
            found.path = candidate.path ∧ found.format = candidate.format) ∧
        (result.candidates.map Candidate.path).Sublist (whole.candidates.map Candidate.path) ∧
        (result.truncated = false → result = whole) := by
  refine ⟨rootsSize lookup roots + 1, fun limits => ⟨?_, ?_, ?_, ?_, ?_⟩⟩
  · intro lookup' h
    exact scanRoots_reordered limits h _
  · exact scanRoots_examined lookup limits roots (Nat.zero_le _)
  · intro candidate hcandidate
    obtain ⟨taken, hsublist, hresult, -⟩ :=
      scan_part lookup roots limits (limits.maxDepth + 1) (Nat.lt_succ_self _)
    rw [hresult] at hcandidate
    rcases examineAll_mem hcandidate with hnone | ⟨file, hfile, hmodule, hpath, hformat⟩
    · cases hnone
    · exact found_of_listed (hsublist.subset hfile) hmodule hpath hformat
  · obtain ⟨taken, -, hresult, -⟩ :=
      scan_part lookup roots limits (limits.maxDepth + 1) (Nat.lt_succ_self _)
    rw [hresult]
    exact examineAll_numbered (fun k candidate h => by cases h) taken
  · intro unlimited hfiles hdepth
    -- Both scans are parts of one listing, as deep as the deeper of the two may go.
    have hwhole : (scanForCandidates lookup roots unlimited).truncated = false :=
      scanRoots_whole lookup unlimited roots (by omega) rfl (by simp; omega)
    obtain ⟨taken, hsublist, hresult, huncut⟩ := scan_part lookup roots limits
      (limits.maxDepth + unlimited.maxDepth + 1) (by omega)
    obtain ⟨all, -, hresult', huncut'⟩ := scan_part lookup roots unlimited
      (limits.maxDepth + unlimited.maxDepth + 1) (by omega)
    obtain ⟨rfl, -⟩ := huncut' hwhole
    refine ⟨hwhole, ?_, ?_, ?_⟩
    · intro maxDepth candidate hfound
      obtain ⟨files, -, hfiles, hnothing⟩ := scan_part lookup roots unlimited
        (max unlimited.maxDepth maxDepth + 1) (by omega)
      obtain ⟨rfl, -⟩ := hnothing hwhole
      obtain ⟨file, hfile, hmodule, hpath, hformat⟩ :=
        listed_of_found (show maxDepth < max unlimited.maxDepth maxDepth + 1 by omega) hfound
      rw [hfiles, hpath, hformat]
      exact mem_examineAll hfile hmodule _
    · rw [hresult, hresult', examineAll_paths, examineAll_paths]
      exact (hsublist.filter _).map _
    · intro hnot
      obtain ⟨rfl, -⟩ := huncut hnot
      rw [hresult, hresult', hnot, hwhole]

end OakBarrels.Discovery
