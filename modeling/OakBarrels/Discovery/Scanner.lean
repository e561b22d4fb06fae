import OakBarrels.Discovery.ModuleFormat
import OakBarrels.Lib.Decimal

/-!
# The scan

A bounded walk over a file tree beneath the nominated roots.
-/

open Octets Decimal

namespace OakBarrels.Discovery

/-- What is found at a path. A file that cannot be opened reads as an empty one; a directory
without entries to show is one that cannot be read. -/
inductive FileEntry
  | file (content : Bytes)
  | directory (entries : Option (List (Bytes × FileEntry)))
  | symlink
  | other
  | noStatus

structure Candidate where
  id : Bytes
  path : Bytes
  format : ModuleFormat
deriving DecidableEq

structure ScanLimits where
  maxFiles : Nat := 4096
  maxDepth : Nat := 4

structure ScanResult where
  candidates : List Candidate
  filesExamined : Nat
  truncated : Bool
deriving DecidableEq

def join (directory name : Bytes) : Bytes :=
  if directory.getLast? = some (ch '/') then directory ++ name else directory ++ ch '/' :: name

/-- The order of paths in one directory: by name, byte by byte. -/
def nameLe : Bytes → Bytes → Bool
  | [], _ => true
  | _ :: _, [] => false
  | a :: as, b :: bs => a < b || (a = b && nameLe as bs)

/-- A regular file: counted, and a candidate where its header says so. -/
def examine (path content : Bytes) (result : ScanResult) : ScanResult :=
  let result := { result with filesExamined := result.filesExamined + 1 }
  let format := identifyModuleFormat (content.take kModuleHeaderBytes)
  if ¬ isLoadableModuleFormat format then result
  else
    { result with candidates := result.candidates ++
        [⟨ascii "cand-" ++ decimal (result.candidates.length + 1), path, format⟩] }

/-- The loop over the entries of a directory, up to the limit of files. -/
def visitEntries (maxFiles : Nat) (visit : Bytes × FileEntry → ScanResult → ScanResult) :
    List (Bytes × FileEntry) → ScanResult → ScanResult
  | [], result => result
  | entry :: rest, result =>
    if maxFiles ≤ result.filesExamined then { result with truncated := true }
    else visitEntries maxFiles visit rest (visit entry result)

/-- `walk` with as many levels left as the limit allows below and at the directory: none stands for
a depth beyond `maxDepth`. -/
def walk (maxFiles : Nat) :
    Nat → Bytes → Option (List (Bytes × FileEntry)) → ScanResult → ScanResult
  | 0, _, _, result => { result with truncated := true }
  | levels + 1, path, entries, result =>
    if maxFiles ≤ result.filesExamined then { result with truncated := true }
    else
      match entries with
      | none => result
      | some entries =>
        visitEntries maxFiles (fun entry result =>
          match entry.2 with
          | .directory inner => walk maxFiles levels (join path entry.1) inner result
          | .file content => examine (join path entry.1) content result
          | .symlink | .other | .noStatus => result)
          (entries.mergeSort fun a b => nameLe a.1 b.1) result

def scanRoots (lookup : Bytes → FileEntry) (limits : ScanLimits) :
    List Bytes → ScanResult → ScanResult
  | [], result => result
  | root :: rest, result =>
    if limits.maxFiles ≤ result.filesExamined then { result with truncated := true }
    else
      match lookup root with
      | .directory entries =>
        scanRoots lookup limits rest
          (walk limits.maxFiles (limits.maxDepth + 1) root entries result)
      | _ => scanRoots lookup limits rest result

def scanForCandidates (lookup : Bytes → FileEntry) (roots : List Bytes) (limits : ScanLimits) :
    ScanResult :=
  scanRoots lookup limits roots ⟨[], 0, false⟩

end OakBarrels.Discovery
