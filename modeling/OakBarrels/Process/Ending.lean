import OakBarrels.Diagnostics
import OakBarrels.Process.Main

/-!
# The process comes to its end

Every loop of the process waits for the system. Where the host hangs up, and the system no longer
interrupts the calls of the process, it comes to its end.
-/

open Octets Binary64

namespace OakBarrels.Process

open Json Protocol
open Dialogue (Ends Comes Nearing Exchange ends_pure ends_ask ends_loop comes_pure comes_ask
  comes_loop)

/-! ## The last answers -/

def Accepted.final : Accepted → Prop
  | .interrupted => False
  | _ => True

/-- Nothing more is brought. -/
def Brought.final {limit : Nat} : Brought limit → Prop
  | .interrupted => False
  | .failed => True
  | .brought data _ => data = []

def Taken.final {limit : Nat} : Taken limit → Prop
  | .interrupted => False
  | _ => True

def Final : (call : Call) → Answer call → Prop
  | .accept _, answer => Accepted.final answer
  | .read _ _, answer => Brought.final answer
  | .write _ _, answer => Taken.final answer
  | _, _ => True

/-- After so many calls the host has hung up. -/
def HangsUp (env : Dialogue.Environment Answer) (late : Nat) : Prop :=
  ∀ said call, late ≤ said.length → Final call (env said call)

section

variable {env : Dialogue.Environment Answer} {late : Nat} {said : List (Exchange Answer)}

/-- An answer that is not a last one came early. -/
theorem ends_call (hhangs : HangsUp env late) {call : Call}
    {post : Answer call → List (Exchange Answer) → Prop}
    (h : ∀ answer, (said.length < late ∨ Final call answer) →
      post answer (said ++ [⟨call, answer⟩])) : Ends env (Dialogue.Program.ask call) said post :=
  ends_ask (h _ ((Nat.lt_or_ge said.length late).imp_right (hhangs said call)))

/-! ## The transports -/

theorem acceptOne_comes (hhangs : HangsUp env late) (t : UnixSocketTransport) :
    Comes env t.acceptOne := by
  unfold UnixSocketTransport.acceptOne
  split
  · exact comes_pure _
  · rename_i fd hfd
    refine comes_loop late (fun _ => 0) ?_ ()
    intro _ said
    refine .bind (ends_call hhangs fun answer hanswer => ?_)
    cases answer with
    | interrupted => exact ends_pure (.inl (hanswer.resolve_right id))
    | failed => exact ends_pure trivial
    | connected connection => exact .bind (ends_ask (ends_pure trivial))

/-- Where something has come it was early. -/
def Early (late : Nat) (said : List (Exchange Answer)) : Ending ⊕ Chunk → Prop
  | .inl _ => True
  | .inr _ => said.length < late

theorem receive_ends (hhangs : HangsUp env late) (channel : Channel) :
    Ends env (receive channel) said fun r _ => Early late said r := by
  refine ends_loop late (fun _ => 0) ?_ ()
  intro _ said' hlater
  refine .bind (ends_call hhangs fun answer hanswer => ?_)
  cases answer with
  | interrupted => exact ends_pure (.inl (hanswer.resolve_right id))
  | failed => exact ends_pure trivial
  | brought data fits =>
    by_cases hdata : data = []
    · simp only [dif_pos hdata]
      exact ends_pure trivial
    · simp only [dif_neg hdata]
      exact ends_pure (hlater.trans_lt (hanswer.resolve_right hdata))

theorem send_comes (hhangs : HangsUp env late) (channel : Channel) (bytes : Bytes) :
    Comes env (send channel bytes) := by
  unfold send
  split
  · exact comes_pure _
  · refine comes_loop late List.length ?_ bytes
    intro rest said
    refine .bind (ends_call hhangs fun answer hanswer => ?_)
    cases answer with
    | interrupted => exact ends_pure (.inl (hanswer.resolve_right id))
    | failed => exact ends_pure trivial
    | taken count fits =>
      simp only
      split
      · exact ends_pure trivial
      · rename_i hsome
        split
        · exact ends_pure trivial
        · rename_i hrest
          refine ends_pure (.inr ?_)
          have hlonger : 0 < (rest.drop count).length := List.length_pos_of_ne_nil hrest
          rw [List.length_drop] at hlonger ⊢
          omega

namespace ControlTransport

theorem read_ends (hhangs : HangsUp env late) (transport : ControlTransport) :
    Ends env transport.read said fun r _ => Early late said r := by
  cases transport with
  | stdio => exact receive_ends hhangs .standard
  | unixSocket t =>
    obtain ⟨listenFd, _ | fd, path⟩ := t
    · exact ends_pure trivial
    · exact receive_ends hhangs (.connection fd)

theorem write_comes (hhangs : HangsUp env late) (bytes : Bytes) (transport : ControlTransport) :
    Comes env (transport.write bytes) := by
  cases transport with
  | stdio => exact send_comes hhangs .standard bytes
  | unixSocket t =>
    obtain ⟨listenFd, _ | fd, path⟩ := t
    · exact comes_pure false
    · exact send_comes hhangs (.connection fd) bytes

end ControlTransport

theorem destroy_comes (t : UnixSocketTransport) : Comes env t.destroy := by
  have hclose : ∀ fd?, Comes env (UnixSocketTransport.closeIf fd?) := by
    rintro (_ | fd)
    · exact comes_pure ()
    · exact comes_ask _
  refine (hclose _).bind fun _ => (hclose _).bind fun _ => ?_
  split
  · exact comes_ask _
  · exact comes_pure ()

theorem disposeBulk_comes (t : UnixSocketTransport) : Comes env (disposeBulk t) := by
  refine (comes_ask Call.stop).bind fun stopped => ?_
  split
  · exact destroy_comes t
  · exact comes_pure ()

theorem destroyIf_comes (t? : Option UnixSocketTransport) : Comes env (destroyIf t?) := by
  cases t? with
  | none => exact comes_pure ()
  | some t => exact destroy_comes t

theorem ControlTransport.destroy_comes (transport : ControlTransport) : Comes env transport.destroy := by
  cases transport with
  | stdio => exact comes_pure ()
  | unixSocket t => exact Process.destroy_comes t

theorem prepare_comes (sunPath : Nat) (path : Bytes) :
    Comes env (UnixSocketTransport.prepare sunPath path) := by
  unfold UnixSocketTransport.prepare
  split
  · exact comes_pure _
  split
  · exact comes_pure _
  refine (comes_ask Call.socket).bind fun answer => ?_
  cases answer with
  | none => exact comes_pure _
  | some fd =>
    refine (comes_ask (Call.bind fd path)).bind fun bound => ?_
    split
    · refine (comes_ask (Call.listen fd)).bind fun listens => ?_
      split
      · exact comes_pure _
      · exact (comes_ask (Call.close fd)).bind fun _ => (comes_ask (Call.unlink path)).bind fun _ =>
          comes_pure _
    · exact (comes_ask (Call.close fd)).bind fun _ => comes_pure _

/-! ## The session -/

section

variable {σ : Type} {unrepresentable : Unrepresentable} {engine : Engine σ}
  {transport : ControlTransport}

theorem writeFrames_comes (hhangs : HangsUp env late) (frames : List Bytes) :
    Comes env (writeFrames transport frames) := by
  induction frames with
  | nil => exact comes_pure ()
  | cons frame rest ih =>
    exact (ControlTransport.write_comes hhangs frame transport).bind fun _ => ih

theorem handle_comes (hhangs : HangsUp env late) (s : Serving σ) (frame : Frame) :
    Comes env (handle unrepresentable engine transport s frame) := by
  have hsettle : ∀ b audio, Comes env (settleAudio engine b audio) := by
    rintro b (_ | t)
    · exact comes_pure none
    · unfold settleAudio
      simp only
      split
      · exact (disposeBulk_comes t).bind fun _ => comes_pure none
      · exact comes_pure (some t)
  exact (hsettle _ _).bind fun _ => (writeFrames_comes hhangs _).bind fun _ => comes_pure _

theorem drainWithin_comes (hhangs : HangsUp env late) (turns : Nat) (s : Serving σ) :
    Comes env (drainWithin unrepresentable engine transport turns s) := by
  induction turns generalizing s with
  | zero => exact comes_pure (true, s)
  | succ turns ih =>
    unfold drainWithin
    split
    · exact comes_pure _
    · refine (handle_comes hhangs _ _).bind fun r => ?_
      split
      · exact ih r.2
      · exact comes_pure (false, r.2)

theorem digest_comes (hhangs : HangsUp env late) (s : Serving σ) (chunk : Chunk) :
    Comes env (digest unrepresentable engine transport s chunk) := by
  refine (drainWithin_comes hhangs _ _).bind fun r => ?_
  split
  · exact comes_pure _
  · split
    · exact comes_pure _
    · exact comes_pure _

/-- The loop goes on only where something has come. -/
theorem session_comes (hhangs : HangsUp env late) (s : Serving σ) :
    Comes env (session unrepresentable engine transport s) := by
  refine comes_loop late (fun _ => 0) ?_ s
  intro s said
  refine .bind ((ControlTransport.read_ends hhangs transport).mono fun r said' _ hearly => ?_)
  rcases r with (_ | _) | chunk
  · exact ends_pure trivial
  · exact ends_pure trivial
  · refine (digest_comes hhangs s chunk said').mono fun r _ _ _ => ?_
    cases r with
    | inl s' => exact .inl hearly
    | inr ended => trivial

theorem serveSession_comes (hhangs : HangsUp env late) (start : σ) (transcript : Bool)
    (spare given : Option UnixSocketTransport) :
    Comes env (serveSession unrepresentable engine start transcript transport spare given) := by
  have hrelease : ∀ s : Serving σ, Comes env (releaseAudio engine s) := by
    intro s
    unfold releaseAudio
    split
    · exact comes_pure ()
    · split
      · exact disposeBulk_comes _
      · exact destroy_comes _
  refine (session_comes hhangs _).bind fun r => (hrelease r.1).bind fun _ =>
    (destroyIf_comes spare).bind fun _ => (ControlTransport.destroy_comes transport).bind fun _ =>
      comes_pure r.2

end

/-! ## The process -/

theorem openEndpoint_comes (hhangs : HangsUp env late) (sunPath : Nat) (name : Bytes) :
    Comes env (openEndpoint sunPath name) := by
  refine (prepare_comes sunPath name).bind fun r => ?_
  cases r with
  | error e => exact comes_pure _
  | ok endpoint =>
    refine (acceptOne_comes hhangs endpoint).bind fun r => ?_
    cases r with
    | error e => exact (destroy_comes endpoint).bind fun _ => comes_pure _
    | ok t => exact comes_pure _

theorem openControl_comes (hhangs : HangsUp env late) (sunPath : Nat) (o : Options) :
    Comes env (openControl sunPath o) := by
  unfold openControl
  split
  · exact (openEndpoint_comes hhangs _ _).bind fun _ => comes_pure _
  · split
    · exact (openEndpoint_comes hhangs _ _).bind fun _ => comes_pure _
    · exact comes_pure _

theorem openBulk_comes (hhangs : HangsUp env late) (sunPath : Nat) (o : Options) :
    Comes env (openBulk sunPath o) := by
  unfold openBulk
  split
  · exact (openEndpoint_comes hhangs _ _).bind fun _ => comes_pure _
  · exact comes_pure _

theorem loadProfiles_comes (path : Bytes) : Comes env (loadProfiles path) := by
  unfold loadProfiles
  split
  · exact comes_pure _
  · exact (comes_ask (Call.load path)).bind fun _ => comes_pure _

theorem serveOptions_comes (hhangs : HangsUp env late) (machine : Machine) (o : Options)
    (profiles : List Probe.Profile) (transport : ControlTransport) (audio : Option UnixSocketTransport) :
    Comes env (serveOptions machine o profiles transport audio) := by
  unfold serveOptions
  split
  · exact serveSession_comes hhangs _ _ _ _
  · split
    · exact serveSession_comes hhangs _ _ _ _
    · exact serveSession_comes hhangs _ _ _ _

theorem print_comes (hhangs : HangsUp env late) (text : Bytes) : Comes env (print text) :=
  (send_comes hhangs .standard text).bind fun _ => comes_pure ()

theorem main_comes (hhangs : HangsUp env late) (machine : Machine) (arguments : List Bytes) :
    Comes env (main machine arguments) := by
  unfold main
  split
  · exact (print_comes hhangs _).bind fun _ => comes_pure 0
  · exact (print_comes hhangs _).bind fun _ => comes_pure 0
  · exact comes_pure 2
  · rename_i o _
    refine (openControl_comes hhangs _ o).bind fun r => ?_
    cases r with
    | error e => exact comes_pure 2
    | ok transport =>
      refine (openBulk_comes hhangs _ o).bind fun r => ?_
      cases r with
      | error e => exact (ControlTransport.destroy_comes transport).bind fun _ => comes_pure 2
      | ok audio =>
        refine (loadProfiles_comes _).bind fun profiles => ?_
        cases profiles with
        | none =>
          exact (destroyIf_comes audio).bind fun _ =>
            (ControlTransport.destroy_comes transport).bind fun _ => comes_pure 2
        | some profiles => exact serveOptions_comes hhangs machine o profiles transport audio

end

/-- **The process does not outlive its host.** Where every call is answered, and once the host has hung
up and the system interrupts no call any more, the process comes to its end, whatever it was doing. -/
theorem main_ends {env : Dialogue.Environment Answer} {late : Nat} (hhangs : HangsUp env late)
    (machine : Machine) (arguments : List Bytes) :
    ∃ answers code, ((main machine arguments).run env ⟨[], answers⟩).1 = some code :=
  (main_comes hhangs machine arguments).enough

def bareMachine : Machine where
  sunPath := 108
  platform := ⟨fun _ => .noStatus, fun _ => none⟩
  unrepresentable _ := Int64.minValue
  version := ascii "unversioned"
  counters _ := 0

/-- A host that says HELLO and hangs up. The first accept, the first read and the first write are
interrupted. -/
def helloOnly : Dialogue.Environment Answer
  | said, .socket => some (said.length + 3)
  | _, .bind _ _ => true
  | _, .listen _ => true
  | said, .accept _ =>
    if said.length = 3 then Accepted.interrupted else Accepted.connected (said.length + 3)
  | _, .close _ => ()
  | _, .unlink _ => ()
  | said, .read _ count =>
    if said.length = 6 then Brought.interrupted
    else if h : said.length = 7 ∧ World.helloFrame.encoded.length ≤ count then
      Brought.brought World.helloFrame.encoded h.2
    else Brought.brought [] (Nat.zero_le _)
  | said, .write _ bytes =>
    if said.length = 8 then Taken.interrupted else Taken.taken bytes.length le_rfl
  | _, .load _ => none
  | _, .stop => true

theorem helloOnly_hangsUp : HangsUp helloOnly 9 := by
  rintro said call hlate
  cases call with
  | accept fd =>
    change Accepted.final (if said.length = 3 then _ else _)
    rw [if_neg (by omega)]
    trivial
  | read channel count =>
    change Brought.final (if said.length = 6 then _ else dite _ _ _)
    rw [if_neg (by omega), dif_neg (by omega)]
    rfl
  | write channel bytes =>
    change Taken.final (if said.length = 8 then _ else _)
    rw [if_neg (by omega)]
    trivial
  | _ => trivial

def listening : List Bytes := [ascii "--listen", ascii "/tmp/session"]

theorem main_ends_helloOnly :
    ∃ answers code, ((main bareMachine listening).run helloOnly ⟨[], answers⟩).1 = some code :=
  main_ends helloOnly_hangsUp _ _

example : ((main bareMachine listening).run helloOnly ⟨[], 12⟩).1 = none ∧
    ((main bareMachine listening).run helloOnly ⟨[], 13⟩).1 = some 0 := by decide +kernel

end OakBarrels.Process
