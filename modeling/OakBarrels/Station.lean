import OakBarrels.Session
import OakBarrels.Transport

/-!
# The station

The loop of `main`: bytes are read in chunks, frames are taken from them and handed to the one
session, and the way it all ends becomes the exit code.
-/

open Octets Binary64

namespace OakBarrels

open Json Protocol

/-- `handed` is not the code's: the frames the session was given. -/
structure Station (σ : Type) where
  decoder : FrameDecoder
  world : World σ
  handed : List Frame

namespace World

variable {σ : Type}

/-- The frames given to the sink, in order. -/
def replies (w : World σ) : List Bytes := w.log.filterMap Event.frame?

def backendCalls (w : World σ) : List BackendCall := w.log.filterMap Event.call?

end World

namespace Station

variable {σ : Type}

def fresh (backend : σ) (transcript : Bool) : Station σ := ⟨.fresh, .fresh backend transcript, []⟩

variable (unrepresentable : Unrepresentable) (backend : EngineBackend σ)

/-- The inner loop, false when the session is over. Each turn takes a byte at least, so there are no
more turns than bytes. -/
def drainWithin : Nat → Station σ → Bool × Station σ
  | 0, s => (true, s)
  | turns + 1, s =>
    match s.decoder.next with
    | (decoder, none) => (true, { s with decoder })
    | (decoder, some frame) =>
      let (open', world) := s.world.handle unrepresentable backend frame
      let s := { s with decoder, world, handed := s.handed ++ [frame] }
      if open' then drainWithin turns s else (false, s)

def drain (s : Station σ) : Bool × Station σ :=
  drainWithin unrepresentable backend (s.decoder.buffer.length + 1) s

/-- The loop over the reads of a session, with the exit code. -/
def loop : List Chunk → Ending → Station σ → Station σ × Nat
  | [], .closed, s => (s, 0)
  | [], .failed, s => (s, 1)
  | chunk :: rest, ending, s =>
    let (running, s) := drain unrepresentable backend { s with decoder := s.decoder.feed chunk.data }
    if s.decoder.failed then (s, 1)
    else if running then loop rest ending s
    else (s, 0)

end Station

end OakBarrels
