import OakBarrels.Probe.View

/-!
# Nothing but counts

Two file trees, two loaders and two sets of roots that come to the same three counts, and to modules
that satisfy the same profiles, cannot be told apart by a host.
-/

open Octets Binary64 Agree

namespace OakBarrels

open Json Protocol

/-! ## The discovery backend -/

namespace Discovery.DiscoveryBackend

open Probe

def view (lookup : Bytes → FileEntry) (b : DiscoveryBackend) : View where
  limits := (b.ensureScanned lookup).limits
  filesExamined := (b.ensureScanned lookup).result.filesExamined
  candidatesFound := (b.ensureScanned lookup).result.candidates.length
  truncated := (b.ensureScanned lookup).result.truncated
  profiles := []
  bulk := none
  nextHandle := 1
  liveHandles := []

def Shows (lookup : Bytes → FileEntry) (b : DiscoveryBackend) (v : View) : Prop :=
  b.view lookup = v

variable (lookup : Bytes → FileEntry)

theorem ensureScanned_again (b : DiscoveryBackend) :
    (b.ensureScanned lookup).ensureScanned lookup = b.ensureScanned lookup := by
  have hscanned : (b.ensureScanned lookup).scanned = true := by
    unfold ensureScanned
    split
    · assumption
    · rfl
  rw [ensureScanned, if_pos hscanned]

theorem scanning_shows {α : Type} {f : ScanResult → α} {g : View → α}
    (h : ∀ b : DiscoveryBackend, f (b.ensureScanned lookup).result = g (b.view lookup)) :
    On (Shows lookup) (scanning lookup f) fun v => (g v, v) := by
  rintro b v rfl
  refine ⟨h b, ?_⟩
  change view lookup (b.ensureScanned lookup) = view lookup b
  unfold view
  rw [ensureScanned_again]

/-- It answers as a view of no profiles does. -/
theorem view_simulates : Simulates (backend lookup) View.backend (Shows lookup) where
  capabilityClasses := scanning_shows lookup fun _ => rfl
  limits := by
    rintro b v rfl
    refine ⟨?_, rfl⟩
    change b.limitsValue = (b.view lookup).limitsValue
    have hlimits : (b.ensureScanned lookup).limits = b.limits := by
      unfold ensureScanned
      split <;> rfl
    unfold limitsValue View.limitsValue view
    rw [hlimits]
  bulkChannel := by
    rintro b v rfl
    exact ⟨rfl, rfl⟩
  bulkBytesForwarded := by
    rintro b v rfl
    exact ⟨rfl, rfl⟩
  bulkBytesDropped := by
    rintro b v rfl
    exact ⟨rfl, rfl⟩
  openTarget _ _ _ := by
    rintro b v rfl
    exact ⟨rfl, rfl⟩
  closeTarget _ := by
    rintro b v rfl
    exact ⟨rfl, rfl⟩
  post _ _ _ := by
    rintro b v rfl
    exact ⟨rfl, rfl⟩
  set _ _ _ := by
    rintro b v rfl
    exact ⟨rfl, rfl⟩
  resolvedSymbolCount := by
    rintro b v rfl
    exact ⟨rfl, rfl⟩
  targetCount := by
    rintro b v rfl
    exact ⟨rfl, rfl⟩
  filesExamined := scanning_shows lookup fun _ => rfl
  candidatesFound := scanning_shows lookup fun _ => rfl
  discoveryTruncated := scanning_shows lookup fun _ => rfl

end Discovery.DiscoveryBackend

/-! ## Two trees -/

namespace Probe

open Discovery ProbingBackend

/-- The three facts about a scan that a report carries. -/
def SameCounts (a b : ScanResult) : Prop :=
  a.filesExamined = b.filesExamined ∧ a.candidates.length = b.candidates.length ∧
    a.truncated = b.truncated

theorem create_view (platform : Platform) (roots : List Bytes) (profiles : List Profile)
    (limits : ScanLimits) :
    view platform (.create roots profiles false limits) =
      let scan := scanForCandidates platform.lookup roots limits
      ⟨limits, scan.filesExamined, scan.candidates.length, scan.truncated,
        (engine platform (.create roots profiles false limits)).profiles, none, 1, []⟩ := rfl

variable (unrepresentable : Unrepresentable) {limits : ScanLimits} {platform platform' : Platform}
  {roots roots' : List Bytes}

/-- **Nothing but counts.** Where two scans come to the same counts, every sequence of frames leaves
the same log over the two discovery backends; and over the two probing backends without an audio
endpoint as well, where the modules bound satisfy the same profiles. -/
theorem only_counts_leak
    (hcounts : SameCounts (scanForCandidates platform.lookup roots limits)
      (scanForCandidates platform'.lookup roots' limits)) (transcript : Bool)
    (frames : List Frame) :
    (Runs.final (World.step unrepresentable (DiscoveryBackend.backend platform.lookup))
        (World.fresh (.create roots limits) transcript) frames).log
      = (Runs.final (World.step unrepresentable (DiscoveryBackend.backend platform'.lookup))
          (World.fresh (.create roots' limits) transcript) frames).log ∧
    ∀ profiles profiles',
      (engine platform (.create roots profiles false limits)).profiles
          = (engine platform' (.create roots' profiles' false limits)).profiles →
      (Runs.final (World.step unrepresentable (backend platform))
          (World.fresh (.create roots profiles false limits) transcript) frames).log
        = (Runs.final (World.step unrepresentable (backend platform'))
            (World.fresh (.create roots' profiles' false limits) transcript) frames).log := by
  obtain ⟨hfiles, hcandidates, htruncated⟩ := hcounts
  refine ⟨?_, ?_⟩
  · have hsimulates := (DiscoveryBackend.view_simulates platform.lookup).through
      (DiscoveryBackend.view_simulates platform'.lookup)
    refine (World.final_alike unrepresentable hsimulates
      (World.fresh_alike ⟨_, rfl, ?_⟩ transcript) frames).log
    change DiscoveryBackend.view _ _ = DiscoveryBackend.view _ _
    simp only [DiscoveryBackend.view, DiscoveryBackend.ensureScanned, DiscoveryBackend.create]
    simp [hfiles, hcandidates, htruncated]
  · intro profiles profiles' hprofiles
    have hsimulates := (view_simulates platform).through (view_simulates platform')
    have hview : view platform' (.create roots' profiles' false limits)
        = view platform (.create roots profiles false limits) := by
      simp only [create_view, hprofiles, hfiles, hcandidates, htruncated]
    refine (World.final_alike unrepresentable hsimulates
      (World.fresh_alike ⟨_, create_shows .., ?_⟩ transcript) frames).log
    rw [← hview]
    exact create_shows ..

/-- The module of `onePlatform` under another name, in another format and elsewhere. -/
def movedPlatform : Platform where
  lookup root :=
    if root = ascii "/home/someone" then
      .directory (some [(ascii "games", .directory (some
        [(ascii "renamed", .file [0xcf, 0xfa, 0xed, 0xfe, 1, 2, 3])]))])
    else .noStatus
  dlopen path := if path = ascii "/home/someone/games/renamed" then some fun symbol =>
      if symbol = ascii "s" then some 0xbeef else none
    else none

theorem only_counts_leak_moved :
    (scanForCandidates onePlatform.lookup [ascii "/r"] {}).candidates
        ≠ (scanForCandidates movedPlatform.lookup [ascii "/home/someone"] {}).candidates ∧
      (Runs.final (World.step (fun _ => Int64.minValue) (backend onePlatform))
          (World.fresh (.create [ascii "/r"] [oneProfile] false {}) true)
          [⟨.hello, ascii "\x7b\"revisions\":[1]\x7d"⟩, ⟨.capsRequest, []⟩]).log
        = (Runs.final (World.step (fun _ => Int64.minValue) (backend movedPlatform))
            (World.fresh (.create [ascii "/home/someone"] [oneProfile] false {}) true)
            [⟨.hello, ascii "\x7b\"revisions\":[1]\x7d"⟩, ⟨.capsRequest, []⟩]).log := by
  have hcounts : SameCounts (scanForCandidates onePlatform.lookup [ascii "/r"] {})
      (scanForCandidates movedPlatform.lookup [ascii "/home/someone"] {}) :=
    ⟨by decide +kernel, by decide +kernel, by decide +kernel⟩
  exact ⟨by decide +kernel, (only_counts_leak (fun _ => Int64.minValue) hcounts true _).2
    [oneProfile] [oneProfile] (by decide +kernel)⟩

end Probe

end OakBarrels
