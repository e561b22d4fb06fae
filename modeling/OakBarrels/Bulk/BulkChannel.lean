import OakBarrels.Bulk.RingBuffer

/-!
# The audio channel

What an engine offers goes into the ring buffer on the engine's thread, and a worker carries it from
there to the endpoint. Each thread may stop between any two of its accesses to what they share.
-/

open Octets

namespace OakBarrels.Bulk

/-- How much goes to the host in one write. -/
def kDrainBytes : UInt64 := 16 * 1024

/-- How long the queue is. -/
def kQueueBytes : UInt64 := 128 * 1024

structure Offer where
  data : Bytes
  taken : Nat
deriving DecidableEq

def Offer.accepted (o : Offer) : Bytes := o.data.take o.taken

/-- Where the engine's thread is in `receive`. -/
inductive Receive
  | idle
  | writing (data : Span)
  | counting (data : Span) (taken : UInt64)

/-- Where the worker is in `run`. -/
inductive Worker
  | top
  | reading
  | writing (chunk : Bytes)
  | counting (chunk : Bytes)
  | ended
deriving DecidableEq

/-- What the last three hold is not the code's: whether a write to the endpoint has failed, what
those that succeeded carried, and the calls of `receive` that have returned. -/
structure BulkChannel where
  queue : System
  engine : Receive
  worker : Worker
  stopping : Bool
  forwarded : UInt64
  dropped : UInt64
  broken : Bool
  written : Bytes
  offers : List Offer

namespace BulkChannel

/-- Nothing where the queue cannot be made. -/
def create : Option BulkChannel :=
  (RingBuffer.create kQueueBytes).map fun ring =>
    ⟨.start ring, .idle, .top, false, 0, 0, false, [], []⟩

/-- `none` stands for a null pointer. `stop` waits for the worker or lets go of it; it changes
nothing else that is shared. -/
inductive Action
  | offer (data : Option Span)
  | copyIn
  | publishHead
  | countDropped
  | look
  | copyOut
  | publishTail
  | write (succeeds : Bool)
  | countForwarded
  | stop

def returns (s : BulkChannel) (data : Span) (taken : UInt64) : BulkChannel :=
  { s with engine := .idle, offers := s.offers ++ [⟨data.data, taken.toNat⟩] }

/-- After a step of the ring's `write`, which may have been its last. -/
def afterWrite (s : BulkChannel) (data : Span) (queue : System) : BulkChannel :=
  let s' := { s with queue }
  match queue.writes.drop s.queue.writes.length with
  | [] => s'
  | call :: _ =>
    let taken := UInt64.ofNat call.taken
    if taken < data.bytes then { s' with engine := .counting data taken }
    else s'.returns data taken

/-- After a step of the ring's `read`. -/
def afterRead (s : BulkChannel) (queue : System) : BulkChannel :=
  let s' := { s with queue }
  match queue.reads.drop s.queue.reads.length with
  | [] => s'
  | call :: _ =>
    if call.returned = [] then { s' with worker := .top }
    else { s' with worker := .writing call.returned }

/-- No step where the thread is elsewhere. -/
def step (s : BulkChannel) : Action → Option BulkChannel
  | .offer data =>
    match s.engine with
    | .idle =>
      match data with
      | none => some s
      | some data =>
        if data.bytes = 0 then some s
        else
          (s.queue.step (.write (some data))).map fun queue =>
            { s with queue, engine := .writing data }
    | _ => none
  | .copyIn =>
    match s.engine with
    | .writing data => (s.queue.step .copyIn).map (s.afterWrite data)
    | _ => none
  | .publishHead =>
    match s.engine with
    | .writing data => (s.queue.step .publishHead).map (s.afterWrite data)
    | _ => none
  | .countDropped =>
    match s.engine with
    | .counting data taken =>
      some ({ s with dropped := s.dropped + (data.bytes - taken) }.returns data taken)
    | _ => none
  | .look =>
    match s.worker with
    | .top =>
      if s.stopping then some { s with worker := .ended }
      else
        (s.queue.step (.read (some kDrainBytes))).map fun queue =>
          { s with queue, worker := .reading }
    | _ => none
  | .copyOut =>
    match s.worker with
    | .reading => (s.queue.step .copyOut).map s.afterRead
    | _ => none
  | .publishTail =>
    match s.worker with
    | .reading => (s.queue.step .publishTail).map s.afterRead
    | _ => none
  | .write succeeds =>
    match s.worker with
    | .writing chunk =>
      if succeeds then some { s with worker := .counting chunk, written := s.written ++ chunk }
      else some { s with worker := .ended, broken := true }
    | _ => none
  | .countForwarded =>
    match s.worker with
    | .counting chunk =>
      some { s with worker := .top, forwarded := s.forwarded + UInt64.ofNat chunk.length }
    | _ => none
  | .stop => some { s with stopping := true }

/-! ## What has become of the bytes -/

/-- The call of `receive` that has put its bytes into the ring and not yet returned. -/
def inFlight (s : BulkChannel) : List Offer :=
  match s.engine with
  | .counting data taken => [⟨data.data, taken.toNat⟩]
  | _ => []

/-- The accepted beginnings of all offers, in order. -/
def accepted (s : BulkChannel) : Bytes := (s.offers ++ s.inFlight).flatMap Offer.accepted

/-- The chunk the worker has read and not written. -/
def holds (s : BulkChannel) : Bytes :=
  match s.worker with
  | .writing chunk => chunk
  | _ => []

/-- The chunk whose write has returned and which is not counted. -/
def uncounted (s : BulkChannel) : Bytes :=
  match s.worker with
  | .counting chunk => chunk
  | _ => []

def totalOffered (s : BulkChannel) : Nat := (s.offers.flatMap Offer.data).length

def totalAccepted (s : BulkChannel) : Nat := (s.offers.flatMap Offer.accepted).length

/-- Every byte that was accepted is in one place, and the counters hold their totals as 64 bits do.
A call of `receive` counts what it refused before it returns. -/
structure Accounted (s : BulkChannel) : Prop where
  bytes : s.accepted = s.written ++ s.holds ++ s.queue.ring.held
  dropped : s.dropped.toNat = (s.totalOffered - s.totalAccepted) % 2 ^ 64
  forwarded : ∃ counted, s.written = counted ++ s.uncounted ∧
    s.forwarded.toNat = counted.length % 2 ^ 64

end BulkChannel

end OakBarrels.Bulk
