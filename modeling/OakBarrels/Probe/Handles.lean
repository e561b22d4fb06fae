import OakBarrels.Lib.Runs
import OakBarrels.Probe.ProbingBackend

/-!
# The life of a handle

Every sequence of calls over a bound engine, judged by the handles that
were given out and not given back.
-/

open Octets Binary64

namespace OakBarrels.Probe

open Json Protocol Discovery

namespace ProbingBackend

variable {platform : Platform}

/-! ## What probing leaves alone -/

@[simp] theorem setUpBulk_keeps (b : ProbingBackend) :
    b.setUpBulk.attempt = b.attempt ∧ b.setUpBulk.liveHandles = b.liveHandles ∧
      b.setUpBulk.nextHandle = b.nextHandle := by
  unfold setUpBulk
  split
  · split <;> exact ⟨rfl, rfl, rfl⟩
  · exact ⟨rfl, rfl, rfl⟩

@[simp] theorem ensureProbed_keeps (b : ProbingBackend) :
    (b.ensureProbed platform).liveHandles = b.liveHandles ∧
      (b.ensureProbed platform).nextHandle = b.nextHandle := by
  unfold ensureProbed
  split
  · exact ⟨rfl, rfl⟩
  · simp

@[simp] theorem ensureProbed_probed (b : ProbingBackend) :
    (b.ensureProbed platform).probed = true := by
  unfold ensureProbed
  split
  · assumption
  · rfl

theorem ensureProbed_of_probed {b : ProbingBackend} (h : b.probed = true) :
    b.ensureProbed platform = b := by
  simp [ensureProbed, h]

/-- The attempt that a backend has made or will make. -/
def engine (platform : Platform) (b : ProbingBackend) : BoundEngine :=
  (b.ensureProbed platform).attempt.engine

theorem engine_eq (b : ProbingBackend) :
    b.engine platform =
      if b.probed then b.attempt.engine
      else (bindFirstAvailable platform
        (scanForCandidates platform.lookup b.roots b.limits).candidates b.profiles).engine := by
  unfold engine ensureProbed
  split
  · rfl
  · simp

@[simp] theorem engine_ensureProbed (b : ProbingBackend) :
    (b.ensureProbed platform).engine platform = b.engine platform := by
  unfold engine
  rw [ensureProbed_of_probed (ensureProbed_probed b)]

/-! ## Requests -/

inductive Request
  | capabilityClasses
  | openTarget (kind name : Bytes) (reason : Reason)
  | closeTarget (handle : UInt32)
  | post (handle : UInt32) (action : Bytes) (args : Value)
  | set (handle : UInt32) (param : Bytes) (value : Double)

inductive Response
  | classes (offered : List Bytes)
  | opened (handle : UInt32) (reason : Reason)
  | answered (reason : Reason)

def step (platform : Platform) (b : ProbingBackend) : Request → ProbingBackend × Response
  | .capabilityClasses =>
    let (result, b) := capabilityClasses platform b
    (b, .classes result)
  | .openTarget kind name reason =>
    let (result, b) := openTarget platform kind name reason b
    (b, .opened result.1 result.2)
  | .closeTarget handle =>
    let (result, b) := closeTarget handle b
    (b, .answered result)
  | .post handle action args =>
    let (result, b) := post platform handle action args b
    (b, .answered result)
  | .set handle param value =>
    let (result, b) := set platform handle param value b
    (b, .answered result)

/-! ## What is owed to the host -/

/-- The handles that were given out and not given back. -/
def openAfter (opened : Finset UInt32) : Request → Response → Finset UInt32
  | .openTarget .., .opened handle _ => if handle = 0 then opened else insert handle opened
  | .closeTarget handle, _ => opened.erase handle
  | _, _ => opened

/-- One call, from the handles open before it. -/
def CallOk (platform : Platform) (b : ProbingBackend) (opened : Finset UInt32) (request : Request) :
    Prop :=
  let (after, response) := b.step platform request
  match request, response with
  | .capabilityClasses, _ => True
  | .openTarget .., .opened handle _ =>
    (handle ≠ 0 ∧ handle ∉ opened) ∨ (handle = 0 ∧ after.liveHandles = b.liveHandles)
  | .closeTarget handle, _ =>
    (∀ action args, (post platform handle action args after).1 = .invalidHandle) ∧
      (∀ param value, (set platform handle param value after).1 = .invalidHandle) ∧
        (closeTarget handle after).2 = after
  | .post handle .., .answered reason => reason ≠ .invalidHandle ↔ handle ∈ opened
  | .set handle .., .answered reason => reason ≠ .invalidHandle ↔ handle ∈ opened
  | _, _ => False

/-- A sequence of calls, with the count of targets after each. -/
def Lifecycle (platform : Platform) : ProbingBackend → Finset UInt32 → List Request → Prop
  | _, _, [] => True
  | b, opened, request :: rest =>
    let (after, response) := b.step platform request
    let opened' := openAfter opened request response
    b.CallOk platform opened request ∧ after.targetCount.toNat = opened'.card ∧
      Lifecycle platform after opened' rest

def Request.isOpen : Request → Bool
  | .openTarget .. => true
  | _ => false

def opens (requests : List Request) : Nat := requests.countP Request.isOpen

theorem opens_replicate (n : Nat) (kind name : Bytes) (reason : Reason) :
    opens (List.replicate n (.openTarget kind name reason)) = n := by
  simp [opens, List.countP_replicate, Request.isOpen]

/-! ## The invariant -/

/-- After `count` opens, with `opened` handles open. -/
structure Inv (platform : Platform) (b : ProbingBackend) (opened : Finset UInt32) (count : Nat) :
    Prop where
  bound : (b.engine platform).isBound = true
  count_lt : count < 2 ^ 32
  nextHandle_eq : b.nextHandle = UInt32.ofNat (count + 1)
  nodup : b.liveHandles.Nodup
  opened_eq : b.liveHandles.toFinset = opened
  handles_le : ∀ h ∈ b.liveHandles, 0 < h.toNat ∧ h.toNat ≤ count

/-! ## Each call -/

section

variable {b : ProbingBackend} (hbound : (b.engine platform).isBound = true)

include hbound

theorem openTarget_bound (kind name : Bytes) (reason : Reason) :
    openTarget platform kind name reason b =
      ((b.nextHandle, .ok), { b.ensureProbed platform with
        nextHandle := b.nextHandle + 1, liveHandles := b.liveHandles ++ [b.nextHandle] }) := by
  have hbound' : (b.ensureProbed platform).attempt.engine.isBound = true := hbound
  simp [openTarget, probing, hbound']

theorem dispatch_invalid (handle : UInt32) (call : BoundEngine → Option EngineCall) :
    (dispatch platform handle call b).1 = .invalidHandle ↔ handle ∉ b.liveHandles := by
  have hbound' : (b.ensureProbed platform).attempt.engine.isBound = true := hbound
  simp only [dispatch, probing, hbound', ensureProbed_keeps]
  by_cases hmem : handle ∈ b.liveHandles
  · simp only [hmem, not_true_eq_false, if_false]
    split <;> simp
  · simp [hmem]

end

theorem dispatch_keeps (b : ProbingBackend) (handle : UInt32)
    (call : BoundEngine → Option EngineCall) :
    (dispatch platform handle call b).2.engine platform = b.engine platform ∧
      (dispatch platform handle call b).2.liveHandles = b.liveHandles ∧
      (dispatch platform handle call b).2.nextHandle = b.nextHandle := by
  simp only [dispatch, probing]
  split
  · simp
  · split
    · simp
    · split
      · simp
      · refine ⟨?_, by simp⟩
        rw [engine_eq]
        simp
        rfl

/-- A call that is not an open changes the handles only by closing one, and never the engine. -/
theorem step_engine (b : ProbingBackend) (request : Request) :
    (b.step platform request).1.engine platform = b.engine platform := by
  cases request with
  | capabilityClasses => exact engine_ensureProbed b
  | openTarget kind name reason =>
    simp only [step, openTarget, probing]
    split
    · exact engine_ensureProbed b
    · rw [engine_eq]
      simp
      rfl
  | closeTarget handle =>
    simp only [step, closeTarget]
    rw [engine_eq, engine_eq]
  | post handle action args =>
    exact (dispatch_keeps b handle fun engine => engine.callWithName .post action).1
  | set handle param value =>
    exact (dispatch_keeps b handle fun engine => engine.callWithLevel .set value).1

/-! ## Whole sequences -/

section

variable {b : ProbingBackend} {opened : Finset UInt32} {count : Nat}

theorem create_inv {roots : List Bytes} {profiles : List Profile} {audioEndpoint : Bool}
    {limits : ScanLimits}
    (h : ((create roots profiles audioEndpoint limits).engine platform).isBound = true) :
    Inv platform (create roots profiles audioEndpoint limits) ∅ 0 :=
  ⟨h, by decide, rfl, List.nodup_nil, rfl, by simp [create]⟩

theorem Inv.mem (h : Inv platform b opened count) (handle : UInt32) :
    handle ∈ b.liveHandles ↔ handle ∈ opened := by
  rw [← h.opened_eq, List.mem_toFinset]

theorem Inv.targetCount (h : Inv platform b opened count) :
    b.targetCount.toNat = opened.card := by
  have hcard : opened.card = b.liveHandles.length := by
    rw [← h.opened_eq, List.toFinset_card_of_nodup h.nodup]
  have hle : opened.card ≤ (Finset.Icc 1 count).card := by
    apply Finset.card_le_card_of_injOn UInt32.toNat
    · intro handle hmem
      have hhandle := h.handles_le handle ((h.mem handle).mpr hmem)
      exact Finset.mem_coe.mpr (Finset.mem_Icc.mpr ⟨hhandle.1, hhandle.2⟩)
    · exact fun _ _ _ _ => UInt32.toNat_inj.mp
  rw [Nat.card_Icc] at hle
  have hlt := h.count_lt
  unfold ProbingBackend.targetCount
  rw [UInt32.toNat_ofNat', Nat.mod_eq_of_lt (by omega), hcard]

/-- An open before the counter comes round gives a handle that was never given out. -/
theorem Inv.open (h : Inv platform b opened count) (hcount : count + 1 < 2 ^ 32)
    (kind name : Bytes) (reason : Reason) :
    b.CallOk platform opened (.openTarget kind name reason) ∧
      Inv platform (b.step platform (.openTarget kind name reason)).1
        (openAfter opened (.openTarget kind name reason)
          (b.step platform (.openTarget kind name reason)).2) (count + 1) := by
  have hnat : b.nextHandle.toNat = count + 1 := by
    rw [h.nextHandle_eq, UInt32.toNat_ofNat', Nat.mod_eq_of_lt hcount]
  have hzero : b.nextHandle ≠ 0 := by
    intro hzero
    rw [hzero] at hnat
    simp at hnat
  have hfresh : b.nextHandle ∉ b.liveHandles := by
    intro hmem
    have := (h.handles_le _ hmem).2
    omega
  have hbound : (b.step platform (.openTarget kind name reason)).1.engine platform
      = b.engine platform := step_engine b _
  simp only [CallOk, step, openTarget_bound h.bound, openAfter, if_neg hzero] at hbound ⊢
  refine ⟨.inl ⟨hzero, fun hmem => hfresh ((h.mem _).mpr hmem)⟩, ?_, hcount, ?_, ?_, ?_, ?_⟩
  · rw [hbound]
    exact h.bound
  · simp only
    rw [h.nextHandle_eq, ← UInt32.toNat_inj]
    simp
  · simp only [← List.concat_eq_append]
    exact h.nodup.concat hfresh
  · simp only [List.toFinset_append, h.opened_eq]
    ext handle
    simp
  · intro handle hmem
    simp only [List.mem_append, List.mem_singleton] at hmem
    rcases hmem with hmem | rfl
    · have := h.handles_le handle hmem
      omega
    · omega

/-- The open at which the counter has come round gives 0 and still adds a target. -/
theorem Inv.open_wraps (h : Inv platform b opened count) (hcount : count + 1 = 2 ^ 32)
    (kind name : Bytes) (reason : Reason) :
    ¬ b.CallOk platform opened (.openTarget kind name reason) := by
  have hzero : b.nextHandle = 0 := by
    rw [h.nextHandle_eq, hcount]
    rfl
  simp [CallOk, step, openTarget_bound h.bound, hzero]

theorem Inv.close (h : Inv platform b opened count) (handle : UInt32) :
    b.CallOk platform opened (.closeTarget handle) ∧
      Inv platform (b.step platform (.closeTarget handle)).1 (opened.erase handle) count := by
  have hbound : ((b.step platform (.closeTarget handle)).1.engine platform).isBound = true := by
    rw [step_engine]
    exact h.bound
  have hgone : handle ∉ b.liveHandles.erase handle := by
    rw [h.nodup.mem_erase_iff]
    simp
  refine ⟨⟨?_, ?_, ?_⟩, hbound, h.count_lt, h.nextHandle_eq, h.nodup.erase handle, ?_, ?_⟩
  · intro action args
    exact (dispatch_invalid hbound handle _).mpr hgone
  · intro param value
    exact (dispatch_invalid hbound handle _).mpr hgone
  · simp only [closeTarget, List.erase_of_not_mem hgone]
  · ext other
    simp only [step, closeTarget, List.mem_toFinset, h.nodup.mem_erase_iff, Finset.mem_erase,
      h.mem]
  · intro other hmem
    exact h.handles_le other (List.mem_of_mem_erase hmem)

theorem Inv.keep (h : Inv platform b opened count) {after : ProbingBackend}
    (hengine : after.engine platform = b.engine platform)
    (hhandles : after.liveHandles = b.liveHandles ∧ after.nextHandle = b.nextHandle) :
    Inv platform after opened count :=
  ⟨hengine ▸ h.bound, h.count_lt, hhandles.2 ▸ h.nextHandle_eq, hhandles.1 ▸ h.nodup,
    hhandles.1 ▸ h.opened_eq, hhandles.1 ▸ h.handles_le⟩

theorem Inv.dispatch (h : Inv platform b opened count) (handle : UInt32)
    (call : BoundEngine → Option EngineCall) :
    ((dispatch platform handle call b).1 ≠ .invalidHandle ↔ handle ∈ opened) ∧
      Inv platform (dispatch platform handle call b).2 opened count := by
  obtain ⟨hengine, hhandles⟩ := @dispatch_keeps platform b handle call
  refine ⟨?_, h.keep hengine hhandles⟩
  exact (not_congr (dispatch_invalid h.bound handle call)).trans (not_not.trans (h.mem handle))

/-- From any state on: the opens to come must fit the handles that are left. -/
theorem Inv.lifecycle_iff_bounded (h : Inv platform b opened count) (requests : List Request) :
    Lifecycle platform b opened requests ↔ count + opens requests < 2 ^ 32 := by
  induction requests generalizing b opened count with
  | nil => simpa [Lifecycle, opens] using h.count_lt
  | cons request rest ih =>
    have hkeep : ∀ after opened', b.CallOk platform opened request →
        Inv platform after opened' count → opens (request :: rest) = opens rest →
        ((b.CallOk platform opened request ∧ after.targetCount.toNat = opened'.card ∧
          Lifecycle platform after opened' rest) ↔ count + opens (request :: rest) < 2 ^ 32) := by
      intro after opened' hcall hinv hopens
      rw [hopens, ← ih hinv]
      exact ⟨fun hall => hall.2.2, fun hrest => ⟨hcall, hinv.targetCount, hrest⟩⟩
    cases request with
    | capabilityClasses =>
      have hhandles : (b.ensureProbed platform).liveHandles = b.liveHandles ∧
          (b.ensureProbed platform).nextHandle = b.nextHandle := by simp
      exact hkeep _ _ trivial (h.keep (step_engine b .capabilityClasses) hhandles)
        (by simp [opens, Request.isOpen])
    | openTarget kind name reason =>
      have hopens : opens (.openTarget kind name reason :: rest) = opens rest + 1 :=
        List.countP_cons_of_pos rfl
      have hlt := h.count_lt
      rcases Nat.lt_or_ge (count + 1) (2 ^ 32) with hnext | hlast
      · obtain ⟨hcall, hinv⟩ := h.open hnext kind name reason
        have hrest := ih hinv
        rw [hopens]
        constructor
        · intro hall
          have := hrest.mp hall.2.2
          omega
        · intro hfits
          exact ⟨hcall, hinv.targetCount, hrest.mpr (by omega)⟩
      · constructor
        · intro hall
          exact absurd hall.1 (h.open_wraps (by omega) kind name reason)
        · intro hfits
          omega
    | closeTarget handle =>
      obtain ⟨hcall, hinv⟩ := h.close handle
      exact hkeep _ _ hcall hinv (by simp [opens, Request.isOpen])
    | post handle action args =>
      obtain ⟨hcall, hinv⟩ := h.dispatch handle fun engine => engine.callWithName .post action
      exact hkeep _ _ hcall hinv (by simp [opens, Request.isOpen])
    | set handle param value =>
      obtain ⟨hcall, hinv⟩ := h.dispatch handle fun engine => engine.callWithLevel .set value
      exact hkeep _ _ hcall hinv (by simp [opens, Request.isOpen])

end

/-! ## From a fresh backend -/

/-- **The life of a handle.** Over a bound engine every sequence of calls keeps it that opens no
more targets than there are handles, and no other. -/
theorem lifecycle_iff (platform : Platform) (roots : List Bytes) (profiles : List Profile)
    (audioEndpoint : Bool) (limits : ScanLimits)
    (hbound : ((create roots profiles audioEndpoint limits).engine platform).isBound = true)
    (requests : List Request) :
    Lifecycle platform (create roots profiles audioEndpoint limits) ∅ requests ↔
      opens requests ≤ 2 ^ 32 - 1 := by
  rw [(create_inv hbound).lifecycle_iff_bounded]
  omega

def onePlatform : Platform where
  lookup root :=
    if root = ascii "/r" then
      .directory (some [(ascii "m", .file (0x7f :: ascii "ELF"))])
    else .noStatus
  dlopen path := if path = ascii "/r/m" then some fun symbol =>
      if symbol = ascii "s" then some 1 else none
    else none

def oneProfile : Profile := ⟨ascii "c", [⟨.set, ascii "s", .level⟩]⟩

theorem onePlatform_bound :
    ((create [ascii "/r"] [oneProfile] false {}).engine onePlatform).isBound = true := by
  decide +kernel

theorem lifecycle_iff_reopened :
    ((create [ascii "/r"] [oneProfile] false {}).engine onePlatform).isBound = true ∧
      Lifecycle onePlatform (create [ascii "/r"] [oneProfile] false {}) ∅
        [.openTarget [] [] .ok, .openTarget [] [] .ok, .closeTarget 1, .post 1 [] .null,
          .set 2 [] (.finite false .zero), .openTarget [] [] .ok] :=
  ⟨onePlatform_bound, (lifecycle_iff _ _ _ _ _ onePlatform_bound _).mpr (by decide)⟩

/-- The open that finds the counter back at zero. -/
theorem lifecycle_fails_at_wrap :
    ¬ ∀ (platform : Platform) (roots : List Bytes) (profiles : List Profile)
      (audioEndpoint : Bool) (limits : ScanLimits),
      ((create roots profiles audioEndpoint limits).engine platform).isBound = true →
      ∀ requests, Lifecycle platform (create roots profiles audioEndpoint limits) ∅ requests := by
  intro h
  obtain ⟨count, hcount⟩ : ∃ count : Nat, count = 2 ^ 32 := ⟨_, rfl⟩
  have hall := h onePlatform [ascii "/r"] [oneProfile] false {} onePlatform_bound
    (List.replicate count (.openTarget [] [] .ok))
  rw [(create_inv onePlatform_bound).lifecycle_iff_bounded, opens_replicate] at hall
  omega

end ProbingBackend

end OakBarrels.Probe
