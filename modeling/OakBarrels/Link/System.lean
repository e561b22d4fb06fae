import OakBarrels.Client.Negotiation
import OakBarrels.Service
import OakBarrels.Station

/-!
# A host and its station

The client of a host and the station it talks to, with the bytes that are under way between them. A
channel cuts and delays what it carries, and loses nothing while both ends are open.
-/

open Octets Binary64

namespace OakBarrels

open Json Protocol
open Client (Invocation Result Reader Writer Convert)

/-- The body of the loop of `main`: what a read comes to, and the exit code where it ends. -/
def Station.turn {σ : Type} (unrepresentable : Unrepresentable) (backend : EngineBackend σ)
    (s : Station σ) (chunk : Chunk) : Station σ × Option Nat :=
  let (running, s) := drain unrepresentable backend { s with decoder := s.decoder.feed chunk.data }
  if s.decoder.failed then (s, some 1) else if running then (s, none) else (s, some 0)

theorem Station.loop_cons {σ : Type} (unrepresentable : Unrepresentable) (backend : EngineBackend σ)
    (chunk : Chunk) (rest : List Chunk) (ending : Ending) (s : Station σ) :
    loop unrepresentable backend (chunk :: rest) ending s =
      ((s.turn unrepresentable backend chunk).2.map fun code =>
        ((s.turn unrepresentable backend chunk).1, code)).getD
          (loop unrepresentable backend rest ending (s.turn unrepresentable backend chunk).1) := by
  rw [loop, turn]
  generalize drain unrepresentable backend { s with decoder := s.decoder.feed chunk.data } = r
  obtain ⟨running, s'⟩ := r
  simp only
  split
  · rfl
  · split <;> rfl

/-- `invocations` is not the code's: the calls whose requests were sent. `closed` says that the host
has dropped the connection; the station goes on writing to it, and that is no failure to it. -/
structure Link (c : Convert) (σ : Type) where
  relay : Client.Relay c
  station : Station σ
  exit : Option Nat
  toStation : Bytes
  toHost : Bytes
  closed : Bool
  invocations : List Invocation

namespace Link

/-- A call of the host, a read of the station or its last one, a read of the host or its last one,
the timer of a request, and the end of the connection. -/
inductive Move
  | invoke (invocation : Invocation)
  | stationReads (chunk : Chunk)
  | stationEnds
  | hostReads (count : Nat)
  | hostDone
  | timeout
  | dispose

def Move.chunk? : Move → Option Chunk
  | .stationReads chunk => some chunk
  | _ => none

/-- Neither a call nor the host's giving up. -/
def Move.isInternal : Move → Bool
  | .stationReads _ | .stationEnds | .hostReads _ | .hostDone => true
  | _ => false

variable {c : Convert} {σ : Type}

def start (engine : σ) (transcript : Bool) : Link c σ where
  relay := .attached c
  station := .fresh engine transcript
  exit := none
  toStation := []
  toHost := []
  closed := false
  invocations := []

variable (reader : Reader c) (writer : Writer c) (unrepresentable : Unrepresentable)
  (backend : EngineBackend σ)

/-- The host awaits each call before it makes the next, which nothing in the client asks of it. -/
def invoke (s : Link c σ) (invocation : Invocation) : Option (Link c σ) :=
  if s.closed ∨ s.relay.waiter.isSome then none
  else
    match s.relay.request reader.toFields invocation.call (invocation.frame writer) false with
    | (relay, none) => some { s with relay }
    | (relay, some bytes) =>
      some { s with
        relay
        toStation := s.toStation ++ bytes
        invocations := s.invocations ++ [invocation] }

def stationReads (s : Link c σ) (chunk : Chunk) : Option (Link c σ) :=
  if s.exit.isSome ∨ ¬ chunk.data <+: s.toStation then none
  else
    let (station, exit) := s.station.turn unrepresentable backend chunk
    some { s with
      station
      exit
      toStation := s.toStation.drop chunk.data.length
      toHost := s.toHost ++ Client.written s.station.world station.world }

/-- The stream ends where the host has closed it. -/
def stationEnds (s : Link c σ) : Option (Link c σ) :=
  if s.exit.isSome ∨ s.closed = false ∨ s.toStation ≠ [] then none else some { s with exit := some 0 }

def hostReads (s : Link c σ) (count : Nat) : Option (Link c σ) :=
  if s.closed ∨ count = 0 ∨ s.toHost.length < count then none
  else
    some { s with
      relay := s.relay.onBytes reader.toFields (s.toHost.take count)
      toHost := s.toHost.drop count }

/-- The stream of the host is done once, after the station has returned. -/
def hostDone (s : Link c σ) : Option (Link c σ) :=
  if s.closed ∨ s.exit = none ∨ s.toHost ≠ [] ∨ s.relay.failure.isSome then none
  else some { s with relay := s.relay.fail .relayClosed }

def timeout (s : Link c σ) : Option (Link c σ) :=
  if s.relay.waiter = none then none else some { s with relay := s.relay.onTimeout }

def dispose (s : Link c σ) : Option (Link c σ) :=
  if s.closed then none else some { s with closed := true }

def step (s : Link c σ) : Move → Option (Link c σ)
  | .invoke invocation => s.invoke reader writer invocation
  | .stationReads chunk => s.stationReads unrepresentable backend chunk
  | .stationEnds => s.stationEnds
  | .hostReads count => s.hostReads reader count
  | .hostDone => s.hostDone
  | .timeout => s.timeout
  | .dispose => s.dispose

/-- What the calls that were sent have returned, in their order. -/
def results (s : Link c σ) : List Result :=
  List.zipWith (fun invocation outcome => outcome.result reader invocation.call) s.invocations
    s.relay.outcomes

/-- What can happen without the host. -/
def Moves (s t : Link c σ) : Prop :=
  ∃ move : Move, move.isInternal = true ∧ s.step reader writer unrepresentable backend move = some t

end Link

end OakBarrels
