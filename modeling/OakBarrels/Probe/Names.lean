import OakBarrels.Diagnostics
import OakBarrels.Probe.Caching

/-!
# The name that a POST fires

The action of a POST is a counted string until it reaches the engine, where it is a C string that
ends at its first NUL.
-/

open Octets Binary64

namespace OakBarrels.Probe

open Json Protocol Discovery World

theorem cString_eq_iff {s : Bytes} : cString s = s ↔ 0 ∉ s := by
  unfold cString
  rw [List.takeWhile_eq_self_iff]
  constructor
  · intro h hmem
    simpa using h 0 hmem
  · intro h b hb
    have hne : b ≠ 0 := by
      rintro rfl
      exact h hb
    simpa using hne

/-- The name that a call carries into the module. -/
def EngineCall.name? : EngineCall → Option Bytes
  | .name _ given => some given
  | _ => none

/-! ## One call of the backend -/

namespace ProbingBackend

variable (platform : Platform)

/-- The names passed to the module between two states, in order. -/
def namesSince (before after : ProbingBackend) : List Bytes :=
  (after.calls.drop before.calls.length).filterMap EngineCall.name?

theorem namesSince_eq {before after : ProbingBackend} {calls : List EngineCall}
    (h : after.calls = before.calls ++ calls) :
    namesSince before after = calls.filterMap EngineCall.name? := by
  unfold namesSince
  rw [h, List.drop_left]

/-- Probing calls the module to install a sink, which has no name. -/
theorem ensureProbed_calls (b : ProbingBackend) :
    ∃ calls, (b.ensureProbed platform).calls = b.calls ++ calls ∧
      calls.filterMap EngineCall.name? = [] := by
  unfold ensureProbed
  split
  · exact ⟨[], (List.append_nil _).symm, rfl⟩
  · simp only [setUpBulk]
    split
    · split
      · exact ⟨[], (List.append_nil _).symm, rfl⟩
      · rename_i call hcall
        refine ⟨[call], rfl, ?_⟩
        unfold BoundEngine.installSink at hcall
        obtain ⟨address, -, rfl⟩ := Option.map_eq_some_iff.mp hcall
        rfl
    · exact ⟨[], (List.append_nil _).symm, rfl⟩

theorem post_names {b : ProbingBackend} {handle : UInt32} {action : Bytes} (args : Value)
    (h : (post platform handle action args b).1 = .ok) :
    namesSince b (post platform handle action args b).2 = [cString action] := by
  obtain ⟨calls, hcalls, hnone⟩ := ensureProbed_calls platform b
  unfold post dispatch probing at h ⊢
  generalize b.ensureProbed platform = b' at *
  simp only at h ⊢
  split at h
  · cases h
  · rename_i hbound
    split at h
    · cases h
    · rename_i hlive
      rw [if_neg hbound, if_neg hlive]
      split at h
      · cases h
      · rename_i call hcall
        have hname : call.name? = some (cString action) := by
          unfold BoundEngine.callWithName at hcall
          obtain ⟨address, -, rfl⟩ := Option.map_eq_some_iff.mp hcall
          rfl
        have hadded : b'.calls ++ [call] = b.calls ++ (calls ++ [call]) := by
          rw [hcalls, List.append_assoc]
        refine (namesSince_eq hadded).trans ?_
        rw [List.filterMap_append, hnone]
        simp [hname]

end ProbingBackend

open ProbingBackend

/-! ## One frame of a session -/

variable (unrepresentable : Unrepresentable) (platform : Platform)

/-- The names that the module receives while the session handles a frame. -/
def received (w : World ProbingBackend) (request : Frame) : List Bytes :=
  namesSince w.backend (w.handle unrepresentable (backend platform) request).2.backend

/-- A POST of this action on this handle. -/
structure Posts (w : World ProbingBackend) (request : Frame) (payload : Value) (handle : UInt32)
    (action : Bytes) : Prop where
  live : w.session.finished = false
  negotiated : w.session.negotiated = true
  type : request.type = .post
  read : parsePayload request = some payload
  target : readHandle unrepresentable payload = some handle
  names : payload.find (ascii "action") = some (.string action)

/-- It is answered by a STATUS that reports success. -/
def AcceptsPost (w : World ProbingBackend) (request : Frame) (handle : UInt32) (action : Bytes) :
    Prop :=
  (∃ payload, Posts unrepresentable w request payload handle action) ∧
    ∃ calls, Emitted w (w.handle unrepresentable (backend platform) request).2 calls
      [encodeFrame .status (statusPayload handle .ok).dump]

variable {unrepresentable platform} {w : World ProbingBackend} {request : Frame} {payload : Value}
  {handle : UInt32} {action : Bytes}

theorem Posts.handled (h : Posts unrepresentable w request payload handle action) :
    let called := (w.transcribe '<' request.type request.payload).calling
      (post platform handle action (readArgs payload)) (.post handle action (readArgs payload))
    w.handle unrepresentable (backend platform) request =
      (true, called.2.answer handle called.1) := by
  unfold World.handle
  rw [if_neg (by simp [h.live])]
  simp only [h.type, transcribe_session, h.negotiated, reduceCtorEq, not_true_eq_false, if_false,
    h.read]
  unfold handlePost
  simp only [h.target, h.names, Value.isString, Value.asString, not_true_eq_false, if_false]
  rfl

theorem read_calling_emitted (w : World ProbingBackend) (request : Frame)
    (operation : StateM ProbingBackend Reason) (call : Reason → BackendCall) :
    Emitted w ((w.transcribe '<' request.type request.payload).calling operation call).2
      [call ((w.transcribe '<' request.type request.payload).calling operation call).1] [] :=
  (transcribe_emitted w '<' request.type request.payload).trans (calling_emitted _ _ _)

theorem answer_ok {w w' : World ProbingBackend} {reason : Reason} {calls calls' : List BackendCall}
    {text : Bytes} (hcalls : Emitted w w' calls [])
    (h : Emitted w (w'.answer handle reason) calls' [encodeFrame .status text]) :
    reason = .ok := by
  by_contra hne
  unfold answer at h
  rw [if_neg hne] at h
  have hframes := (h.unique (hcalls.trans (send_emitted w' .error (errorPayload reason).dump))).2
  have htype := encodeFrame_type (List.singleton_injective hframes)
  cases htype

theorem AcceptsPost.received (h : AcceptsPost unrepresentable platform w request handle action) :
    received unrepresentable platform w request = [cString action] := by
  obtain ⟨⟨payload, hposts⟩, calls, hanswered⟩ := h
  rw [hposts.handled] at hanswered
  have hok := answer_ok (read_calling_emitted w request _ _) hanswered
  unfold Probe.received
  rw [hposts.handled, answer_backend]
  have hbackend := transcribe_backend w '<' request.type request.payload
  generalize w.transcribe '<' request.type request.payload = w₁ at *
  rw [← hbackend]
  exact post_names platform (readArgs payload) hok

/-- Over a bound engine an open handle is enough, where POST has a function that takes a name. -/
theorem Posts.accepted (h : Posts unrepresentable w request payload handle action)
    (hbound : (w.backend.engine platform).isBound = true) (hopen : handle ∈ w.backend.liveHandles)
    (haddress : ((w.backend.engine platform).addressFor .post .name).isSome = true) :
    AcceptsPost unrepresentable platform w request handle action := by
  have hbackend := transcribe_backend w '<' request.type request.payload
  have hcalled := read_calling_emitted w request (post platform handle action (readArgs payload))
    (.post handle action (readArgs payload))
  have hok : ((w.transcribe '<' request.type request.payload).calling
      (post platform handle action (readArgs payload))
      (.post handle action (readArgs payload))).1 = .ok := by
    change (post platform handle action (readArgs payload) (w.transcribe _ _ _).backend).1 = .ok
    rw [hbackend]
    exact (post_ok hbound hopen action (readArgs payload)).mpr haddress
  rw [hok] at hcalled
  refine ⟨⟨payload, h⟩, [.post handle action (readArgs payload) .ok], ?_⟩
  rw [h.handled, answer, if_pos hok, hok]
  exact hcalled.trans (send_emitted _ _ _)

/-- **What the engine is told.** Two accepted POSTs of one session bring their actions to the engine
unaltered, and so different actions as different names, exactly if neither action contains a NUL. -/
theorem action_arrives_iff (unrepresentable : Unrepresentable) (platform : Platform)
    (roots : List Bytes) (profiles : List Profile) (audioEndpoint : Bool) (limits : ScanLimits)
    (transcript : Bool) (before between : List Frame) (first second : Frame) (handle : UInt32)
    (action action' : Bytes) :
    let start := fresh (.create roots profiles audioEndpoint limits) transcript
    let w := Runs.final (step unrepresentable (backend platform)) start before
    let w' := Runs.final (step unrepresentable (backend platform)) start
      (before ++ first :: between)
    AcceptsPost unrepresentable platform w first handle action →
    AcceptsPost unrepresentable platform w' second handle action' →
    (received unrepresentable platform w first = [action] ∧
        received unrepresentable platform w' second = [action'] ∧
        (action ≠ action' → received unrepresentable platform w first ≠
          received unrepresentable platform w' second) ↔
      0 ∉ action ∧ 0 ∉ action') := by
  intro start w w' h h'
  rw [h.received, h'.received, List.singleton_inj, List.singleton_inj, cString_eq_iff,
    cString_eq_iff]
  constructor
  · exact fun ⟨hfirst, hsecond, _⟩ => ⟨hfirst, hsecond⟩
  · rintro ⟨hfirst, hsecond⟩
    refine ⟨hfirst, hsecond, ?_⟩
    rw [cString_eq_iff.mpr hfirst, cString_eq_iff.mpr hsecond]
    exact fun hne heq => hne (List.singleton_injective heq)

/-! ## Two actions on one handle -/

/-- The module of `onePlatform`, with its function taken to fire a name. -/
def nameProfile : Profile := ⟨ascii "c", [⟨.post, ascii "s", .name⟩]⟩

def openedNames : List Frame := [helloFrame, ⟨.open, ascii "\x7b\"kind\":\"k\"\x7d"⟩]

def postFrame (action : Bytes) : Frame :=
  ⟨.post, ascii "\x7b\"handle\":1,\"action\":\"" ++ action ++ ascii "\"\x7d"⟩

def postWorld (before : List Frame) : World ProbingBackend :=
  Runs.final (step (fun _ => Int64.minValue) (backend onePlatform))
    (fresh (.create [ascii "/r"] [nameProfile] false {}) false) before

/-- Whether a POST of this action on the first handle is what comes next. -/
def postsNext (before : List Frame) (request : Frame) (action : Bytes) : Bool :=
  let w := postWorld before
  let engine := w.backend.engine onePlatform
  !w.session.finished && w.session.negotiated && w.backend.liveHandles.contains 1 &&
    engine.isBound && (engine.addressFor .post .name).isSome &&
    (parsePayload request).any fun payload =>
      readHandle (fun _ => Int64.minValue) payload == some 1 &&
        match payload.find (ascii "action") with
        | some (.string given) => given == action
        | _ => false

theorem postFrame_accepted {before : List Frame} {text action : Bytes}
    (h : postsNext before (postFrame text) action = true) :
    AcceptsPost (fun _ => Int64.minValue) onePlatform (postWorld before) (postFrame text) 1
      action := by
  unfold postsNext at h
  simp only [Bool.and_eq_true, Bool.not_eq_true', List.contains_iff_mem] at h
  obtain ⟨⟨⟨⟨⟨hlive, hnegotiated⟩, hopen⟩, hbound⟩, haddress⟩, hread⟩ := h
  obtain ⟨payload, hpayload, hread⟩ := (Option.any_eq_true _ _).mp hread
  obtain ⟨hhandle, haction⟩ := (Bool.and_eq_true _ _).mp hread
  split at haction
  · rename_i given hfind
    rw [beq_iff_eq.mp haction] at hfind
    exact Posts.accepted ⟨hlive, hnegotiated, rfl, hpayload, beq_iff_eq.mp hhandle, hfind⟩
      hbound hopen haddress
  · cases haction

theorem action_arrives_iff_twice :
    AcceptsPost (fun _ => Int64.minValue) onePlatform (postWorld openedNames)
        (postFrame (ascii "a")) 1 (ascii "a") ∧
      received (fun _ => Int64.minValue) onePlatform (postWorld openedNames)
        (postFrame (ascii "a")) = [ascii "a"] := by
  have hfirst : AcceptsPost (fun _ => Int64.minValue) onePlatform (postWorld openedNames)
      (postFrame (ascii "a")) 1 (ascii "a") := postFrame_accepted (by decide +kernel)
  have hsecond : AcceptsPost (fun _ => Int64.minValue) onePlatform
      (postWorld (openedNames ++ [postFrame (ascii "a")])) (postFrame (ascii "b")) 1 (ascii "b") :=
    postFrame_accepted (by decide +kernel)
  have harrive := (action_arrives_iff (fun _ => Int64.minValue) onePlatform [ascii "/r"]
    [nameProfile] false {} false openedNames [] _ _ 1 _ _ hfirst hsecond).mpr (by decide)
  exact ⟨hfirst, harrive.1⟩

/-- The engine cannot tell two actions apart that differ behind a NUL. -/
theorem action_arrives_fails_at_nul :
    ¬ ∀ (before between : List Frame) (first second : Frame) (handle : UInt32)
      (action action' : Bytes),
      AcceptsPost (fun _ => Int64.minValue) onePlatform (postWorld before) first handle action →
      AcceptsPost (fun _ => Int64.minValue) onePlatform (postWorld (before ++ first :: between))
        second handle action' → action ≠ action' →
      received (fun _ => Int64.minValue) onePlatform (postWorld before) first ≠
        received (fun _ => Int64.minValue) onePlatform (postWorld (before ++ first :: between))
          second := by
  intro h
  have hfirst : AcceptsPost (fun _ => Int64.minValue) onePlatform (postWorld openedNames)
      (postFrame (ascii "a")) 1 (ascii "a") := postFrame_accepted (by decide +kernel)
  have hsecond : AcceptsPost (fun _ => Int64.minValue) onePlatform
      (postWorld (openedNames ++ [postFrame (ascii "a")])) (postFrame (ascii "a\\u0000b")) 1
      [97, 0, 98] := postFrame_accepted (by decide +kernel)
  refine h openedNames [] _ _ 1 _ _ hfirst hsecond (by decide) ?_
  rw [hfirst.received, hsecond.received]
  decide

end OakBarrels.Probe
