import OakBarrels.Discovery.DiscoveryBackend
import OakBarrels.Metered
import OakBarrels.Probe.ProbingBackend
import OakBarrels.Process.Transports
import OakBarrels.Station

/-!
# The process

`main`: the arguments, the two endpoints, the profile, the backend, the loop over the reads of the
session, and everything that is destroyed at its end.
-/

open Octets Binary64

namespace OakBarrels.Process

open Json Protocol

/-! ## The arguments -/

def kUsage : Bytes := ascii <|
  "oak-barrels - a neutral relay between a host and an installed audio engine.\n" ++
  "\n" ++
  "Usage:\n" ++
  "  oak-barrels [transport] [--bulk <name>] [--search-root <dir>]...\n" ++
  "              [--probe-profile <f>] [--version] [--help]\n" ++
  "\n" ++
  "Control transport, choose at most one. The default is standard input and\n" ++
  "output, which is what a host that spawns this process wants.\n" ++
  "\n" ++
  "  --listen <path>      serve one connection on a unix domain socket.\n" ++
  "  --pipe <name>        serve one client on a named pipe.\n" ++
  "\n" ++
  "  --bulk <name>        also serve the audio channel of protocol section 7\n" ++
  "                       on a second endpoint, of whichever kind this\n" ++
  "                       platform provides. Only used if a bound engine's\n" ++
  "                       profile declares a sink to install.\n" ++
  "  --search-root <dir>  nominate a directory for discovery. Repeatable.\n" ++
  "                       The station invents no locations of its own and\n" ++
  "                       looks nowhere unless asked, so with no\n" ++
  "                       --search-root it never touches the filesystem.\n" ++
  "  --probe-profile <f>  a JSON file describing how to talk to an engine.\n" ++
  "                       Needs at least one --search-root. The symbol\n" ++
  "                       names come from that file and never from this\n" ++
  "                       build, which is how the station can bind an\n" ++
  "                       engine it has never heard of.\n" ++
  "  --debug-text         write a one-line transcript of every frame to\n" ++
  "                       standard error. A development aid: it changes no\n" ++
  "                       byte on the pipe and is not part of the protocol.\n" ++
  "\n" ++
  "The control channel carries frames and nothing else. Diagnostics go to\n" ++
  "standard error, which is never part of the protocol.\n"

structure Options where
  searchRoots : List Bytes := []
  profilePath : Bytes := []
  debugText : Bool := false
  listenPath : Bytes := []
  pipeName : Bytes := []
  bulkName : Bytes := []

/-- The options that take a value. -/
def Options.set (o : Options) (argument value : Bytes) : Option Options :=
  if argument = ascii "--search-root" then some { o with searchRoots := o.searchRoots ++ [value] }
  else if argument = ascii "--probe-profile" then some { o with profilePath := value }
  else if argument = ascii "--listen" then some { o with listenPath := value }
  else if argument = ascii "--pipe" then some { o with pipeName := value }
  else if argument = ascii "--bulk" then some { o with bulkName := value }
  else none

inductive Command
  | help
  | version
  | refuse
  | serve (options : Options)

def readArguments (o : Options) : List Bytes → Command
  | [] => if o.listenPath ≠ [] ∧ o.pipeName ≠ [] then .refuse else .serve o
  | argument :: rest =>
    if argument = ascii "--help" ∨ argument = ascii "-h" then .help
    else if argument = ascii "--version" then .version
    else if argument = ascii "--debug-text" then readArguments { o with debugText := true } rest
    else
      match rest with
      | [] => .refuse
      | value :: rest =>
        match o.set argument value with
        | some o => readArguments o rest
        | none => .refuse

/-- A text for standard output. Nobody looks at what becomes of it. -/
def print (text : Bytes) : Program Unit := do
  let _ ← send .standard text
  pure ()

/-! ## The session -/

/-- Where a backend has the audio endpoint: to itself, in a channel, or no more. -/
inductive Audio
  | kept
  | running
  | gone
deriving DecidableEq

structure Engine (σ : Type) where
  backend : EngineBackend σ
  audio : σ → Audio

/-- The station, with the audio endpoint that its backend was given. -/
structure Serving (σ : Type) where
  station : Station σ
  audio : Option UnixSocketTransport

/-- A channel whose worker does not stop is not freed. -/
def disposeBulk (t : UnixSocketTransport) : Program Unit := do
  if ← System.stop then t.destroy else pure ()

section

variable {σ : Type} (unrepresentable : Unrepresentable) (engine : Engine σ)
  (transport : ControlTransport)

/-- What the handling of a frame does with the audio endpoint. -/
def settleAudio (b : σ) : Option UnixSocketTransport → Program (Option UnixSocketTransport)
  | none => pure none
  | some t =>
    if engine.audio b = .gone then do
      disposeBulk t
      pure none
    else pure (some t)

/-- The frames that were written between two states. -/
def newReplies (w w' : World σ) : List Bytes := (w'.log.drop w.log.length).filterMap Event.frame?

/-- The sink. The session does not look at what a write comes to. -/
def writeFrames : List Bytes → Program Unit
  | [] => pure ()
  | frame :: rest => do
    let _ ← transport.write frame
    writeFrames rest

def handle (s : Serving σ) (frame : Frame) : Program (Bool × Serving σ) := do
  let r := s.station.world.handle unrepresentable engine.backend frame
  let audio ← settleAudio engine r.2.backend s.audio
  writeFrames transport (newReplies s.station.world r.2)
  pure (r.1, ⟨{ s.station with world := r.2, handed := s.station.handed ++ [frame] }, audio⟩)

/-- The inner loop, as the station has it. -/
def drainWithin : Nat → Serving σ → Program (Bool × Serving σ)
  | 0, s => pure (true, s)
  | turns + 1, s =>
    match s.station.decoder.next with
    | (decoder, none) => pure (true, { s with station := { s.station with decoder } })
    | (decoder, some frame) => do
      let r ← handle unrepresentable engine transport
        { s with station := { s.station with decoder } } frame
      if r.1 then drainWithin turns r.2 else pure (false, r.2)

/-- What is done with what a read has brought. -/
def digest (s : Serving σ) (chunk : Chunk) : Program (Serving σ ⊕ (Serving σ × Nat)) := do
  let fed := { s with station := { s.station with decoder := s.station.decoder.feed chunk.data } }
  let r ← drainWithin unrepresentable engine transport (fed.station.decoder.buffer.length + 1) fed
  if r.2.station.decoder.failed then pure (.inr (r.2, 1))
  else if r.1 then pure (.inl r.2)
  else pure (.inr (r.2, 0))

/-- The body of the loop of `main`. -/
def serveTurn (s : Serving σ) : Program (Serving σ ⊕ (Serving σ × Nat)) := do
  match ← transport.read with
  | .inl .failed => pure (.inr (s, 1))
  | .inl .closed => pure (.inr (s, 0))
  | .inr chunk => digest unrepresentable engine transport s chunk

theorem read_asks {t t' : Dialogue.Talk Answer} {env : Dialogue.Environment Answer} {chunk : Chunk}
    (h : transport.read.run env t = (some (.inr chunk), t')) : t'.left < t.left := by
  cases transport with
  | stdio => exact Dialogue.Program.asks_loop (receiveTurn_asks .standard) () env t _ t' h
  | unixSocket socket =>
    unfold ControlTransport.read at h
    cases hfd : socket.connectionFd with
    | none =>
      simp only [hfd] at h
      cases h
    | some fd =>
      simp only [hfd] at h
      exact Dialogue.Program.asks_loop (receiveTurn_asks (.connection fd)) () env t _ t' h

/-- The loop goes on only after a read. -/
theorem serveTurn_turns : Dialogue.Program.Turns (serveTurn unrepresentable engine transport) := by
  intro s env t s' t' hrun
  obtain ⟨r, t₁, hread, hrest⟩ := Dialogue.Program.bind_some hrun
  rcases r with (_ | _) | chunk
  · cases hrest
  · cases hrest
  · have hspends := (digest unrepresentable engine transport s chunk).spends env t₁
    rw [hrest] at hspends
    exact hspends.trans_lt (read_asks transport hread)

def session (s : Serving σ) : Program (Serving σ × Nat) :=
  .loop (serveTurn unrepresentable engine transport)
    (serveTurn_turns unrepresentable engine transport) s

/-- The destructor of a backend: the channel first, then the endpoint that it still has. -/
def releaseAudio (s : Serving σ) : Program Unit :=
  match s.audio with
  | none => pure ()
  | some t => if engine.audio s.station.world.backend = .running then disposeBulk t else t.destroy

end

def destroyIf : Option UnixSocketTransport → Program Unit
  | none => pure ()
  | some t => t.destroy

/-- The session over a backend, and the end of everything: the backend, the audio endpoint that no
backend has taken, and the transport. -/
def serveSession {σ : Type} (unrepresentable : Unrepresentable) (engine : Engine σ) (start : σ)
    (transcript : Bool) (transport : ControlTransport) (spare given : Option UnixSocketTransport) :
    Program Nat := do
  let r ← session unrepresentable engine transport ⟨.fresh start transcript, given⟩
  releaseAudio engine r.1
  destroyIf spare
  transport.destroy
  pure r.2

/-! ## The setup -/

/-- What the process finds itself on. `version` is what the build was given, and `counters` are the
readings of the counters of the audio channel, one look after the other. -/
structure Machine where
  sunPath : Nat
  platform : Probe.Platform
  unrepresentable : Unrepresentable
  version : Bytes
  counters : Nat → UInt64

def openEndpoint (sunPath : Nat) (name : Bytes) : Program (Except Bytes UnixSocketTransport) := do
  match ← UnixSocketTransport.prepare sunPath name with
  | .error error => pure (.error error)
  | .ok endpoint =>
    match ← endpoint.acceptOne with
    | .ok endpoint => pure (.ok endpoint)
    | .error error =>
      endpoint.destroy
      pure (.error error)

def openControl (sunPath : Nat) (o : Options) : Program (Except Bytes ControlTransport) :=
  if o.listenPath ≠ [] then return (← openEndpoint sunPath o.listenPath).map .unixSocket
  else if o.pipeName ≠ [] then return (← openEndpoint sunPath o.pipeName).map .unixSocket
  else pure (.ok .stdio)

def openBulk (sunPath : Nat) (o : Options) : Program (Except Bytes (Option UnixSocketTransport)) :=
  if o.bulkName ≠ [] then return (← openEndpoint sunPath o.bulkName).map some
  else pure (.ok none)

/-- The profiles, where a file of them is named. -/
def loadProfiles (path : Bytes) : Program (Option (List Probe.Profile)) :=
  if path = [] then pure (some []) else return (← System.load path).bind Probe.parseProfiles

def nullEngine : Engine Unit := ⟨nullBackend, fun _ => .gone⟩

def discoveryEngine (machine : Machine) : Engine Discovery.DiscoveryBackend :=
  ⟨Discovery.DiscoveryBackend.backend machine.platform.lookup, fun _ => .gone⟩

/-- Where a probing backend has the audio endpoint that it was given. -/
def probingAudio (b : Probe.ProbingBackend) : Audio :=
  if b.audioEndpoint then .kept else if b.bulk.isSome then .running else .gone

def probingEngine (machine : Machine) : Engine (Metered Probe.ProbingBackend) where
  backend := (Probe.ProbingBackend.backend machine.platform).metered machine.counters
  audio m := probingAudio m.engine

/-- Only a backend that probes takes the audio endpoint. -/
def serveOptions (machine : Machine) (o : Options) (profiles : List Probe.Profile)
    (transport : ControlTransport) (audio : Option UnixSocketTransport) : Program Nat :=
  if o.searchRoots = [] then
    serveSession machine.unrepresentable nullEngine () o.debugText transport audio none
  else if profiles = [] then
    serveSession machine.unrepresentable (discoveryEngine machine)
      (.create o.searchRoots {}) o.debugText transport audio none
  else
    serveSession machine.unrepresentable (probingEngine machine)
      ⟨.create o.searchRoots profiles audio.isSome {}, 0⟩ o.debugText transport none audio

def main (machine : Machine) (arguments : List Bytes) : Program Nat :=
  match readArguments {} arguments with
  | .help => do
    print kUsage
    pure 0
  | .version => do
    print (ascii "oak-barrels " ++ machine.version ++ ascii "\n")
    pure 0
  | .refuse => pure 2
  | .serve o => do
    match ← openControl machine.sunPath o with
    | .error _ => pure 2
    | .ok transport =>
      match ← openBulk machine.sunPath o with
      | .error _ =>
        transport.destroy
        pure 2
      | .ok audio =>
        match ← loadProfiles o.profilePath with
        | none =>
          destroyIf audio
          transport.destroy
          pure 2
        | some profiles => serveOptions machine o profiles transport audio

end OakBarrels.Process
