import OakBarrels.Lib.Circular
import OakBarrels.Lib.Octets
import OakBarrels.Lib.Runs

/-!
# The ring buffer between the engine's thread and the channel's

`write` and `read` as the code computes them, and the two threads that call them: each call is cut
where the other thread can see it, into the loads of the indices, the copy, and the store of its own
index.
-/

open Octets

namespace OakBarrels.Bulk

/-- The most bytes a vector can have. -/
def maxVectorSize : UInt64 := 0x7fffffffffffffff

structure RingBuffer where
  storage : Bytes
  slots : UInt64
  usable : UInt64
  head : UInt64
  tail : UInt64
deriving DecidableEq

structure Span where
  data : Bytes
  fits : data.length < 2 ^ 64

def Span.bytes (s : Span) : UInt64 := UInt64.ofNat s.data.length

namespace RingBuffer

/-- Nothing where the vector cannot be made. -/
def create (capacity : UInt64) : Option RingBuffer :=
  if maxVectorSize < capacity + 1 then none
  else some
    { storage := List.replicate (capacity + 1).toNat 0
      slots := capacity + 1
      usable := capacity
      head := 0
      tail := 0 }

def capacity (r : RingBuffer) : UInt64 := r.usable

/-- The same expression in `write`, `read` and `size`. -/
def used (r : RingBuffer) (head tail : UInt64) : UInt64 := (head + r.slots - tail) % r.slots

def size (r : RingBuffer) : UInt64 := r.used r.head r.tail

def empty (r : RingBuffer) : Bool := r.size = 0

/-- `taken` in `write`, from the indices it has loaded. -/
def writable (r : RingBuffer) (head tail bytes : UInt64) : UInt64 :=
  let available := r.slots - 1 - r.used head tail
  min bytes available

def copyIn (r : RingBuffer) (head : UInt64) (data : Bytes) (taken : UInt64) : RingBuffer :=
  let firstRun := min taken (r.slots - head)
  let first := Circular.overwrite r.storage head.toNat (data.take firstRun.toNat)
  if firstRun < taken then
    let rest := (data.drop firstRun.toNat).take (taken - firstRun).toNat
    { r with storage := Circular.overwrite first 0 rest }
  else { r with storage := first }

def publishHead (r : RingBuffer) (head taken : UInt64) : RingBuffer :=
  { r with head := (head + taken) % r.slots }

/-- `taken` in `read`, from the indices it has loaded. -/
def readable (r : RingBuffer) (tail head capacity : UInt64) : UInt64 := min capacity (r.used head tail)

def copyOut (r : RingBuffer) (tail taken : UInt64) : Bytes :=
  let firstRun := min taken (r.slots - tail)
  let out := (r.storage.drop tail.toNat).take firstRun.toNat
  if firstRun < taken then out ++ r.storage.take (taken - firstRun).toNat else out

def publishTail (r : RingBuffer) (tail taken : UInt64) : RingBuffer :=
  { r with tail := (tail + taken) % r.slots }

end RingBuffer

/-! ## The two threads -/

/-- Where the producer is in `write`. The last argument is not the code's: the space that was free
when it loaded the indices. -/
inductive Producer
  | idle
  | loaded (data : Span) (head tail : UInt64) (free : Nat)
  | copied (data : Span) (head taken : UInt64) (free : Nat)

/-- Where the consumer is in `read`, with what was held when it loaded the indices. -/
inductive Consumer
  | idle
  | loaded (capacity tail head : UInt64) (held : Nat)
  | copied (capacity : UInt64) (out : Bytes) (tail taken : UInt64) (held : Nat)

structure WriteCall where
  offered : Bytes
  free : Nat
  taken : Nat

structure ReadCall where
  requested : Nat
  held : Nat
  returned : Bytes

structure System where
  ring : RingBuffer
  producer : Producer
  consumer : Consumer
  writes : List WriteCall
  reads : List ReadCall

/-- A step of one of the two threads; `none` stands for a null pointer. -/
inductive Action
  | write (data : Option Span)
  | copyIn
  | publishHead
  | read (capacity : Option UInt64)
  | copyOut
  | publishTail

namespace RingBuffer

def held (r : RingBuffer) : Bytes := Circular.between r.storage r.tail.toNat r.head.toNat

def free (r : RingBuffer) : Nat := r.capacity.toNat - r.held.length

end RingBuffer

namespace System

def start (ring : RingBuffer) : System := ⟨ring, .idle, .idle, [], []⟩

def writeReturns (s : System) (call : WriteCall) : System :=
  { s with producer := .idle, writes := s.writes ++ [call] }

def readReturns (s : System) (call : ReadCall) : System :=
  { s with consumer := .idle, reads := s.reads ++ [call] }

/-- No step where the thread is elsewhere, or where the code divides by zero. -/
def step (s : System) : Action → Option System
  | .write data =>
    match s.producer with
    | .idle =>
      match data with
      | none => some (s.writeReturns ⟨[], s.ring.free, 0⟩)
      | some data =>
        if data.bytes = 0 then some (s.writeReturns ⟨data.data, s.ring.free, 0⟩)
        else some { s with producer := .loaded data s.ring.head s.ring.tail s.ring.free }
    | _ => none
  | .copyIn =>
    match s.producer with
    | .loaded data head tail free =>
      if s.ring.slots = 0 then none
      else
        let taken := s.ring.writable head tail data.bytes
        if taken = 0 then some (s.writeReturns ⟨data.data, free, 0⟩)
        else some
          { s with
            ring := s.ring.copyIn head data.data taken
            producer := .copied data head taken free }
    | _ => none
  | .publishHead =>
    match s.producer with
    | .copied data head taken free =>
      some ({ s with ring := s.ring.publishHead head taken }.writeReturns
        ⟨data.data, free, taken.toNat⟩)
    | _ => none
  | .read capacity =>
    match s.consumer with
    | .idle =>
      match capacity with
      | none => some (s.readReturns ⟨0, s.ring.held.length, []⟩)
      | some capacity =>
        if capacity = 0 then some (s.readReturns ⟨0, s.ring.held.length, []⟩)
        else some
          { s with consumer := .loaded capacity s.ring.tail s.ring.head s.ring.held.length }
    | _ => none
  | .copyOut =>
    match s.consumer with
    | .loaded capacity tail head held =>
      if s.ring.slots = 0 then none
      else
        let taken := s.ring.readable tail head capacity
        if taken = 0 then some (s.readReturns ⟨capacity.toNat, held, []⟩)
        else some
          { s with consumer := .copied capacity (s.ring.copyOut tail taken) tail taken held }
    | _ => none
  | .publishTail =>
    match s.consumer with
    | .copied capacity out tail taken held =>
      some ({ s with ring := s.ring.publishTail tail taken }.readReturns
        ⟨capacity.toNat, held, out⟩)
    | _ => none

/-! ## What the calls came to -/

def published (s : System) : Bytes := s.writes.flatMap fun w => w.offered.take w.taken

def pending (s : System) : Bytes :=
  match s.producer with
  | .idle => []
  | .loaded data head tail _ => data.data.take (s.ring.writable head tail data.bytes).toNat
  | .copied data _ taken _ => data.data.take taken.toNat

def accepted (s : System) : Bytes := s.published ++ s.pending

def returned (s : System) : Bytes := s.reads.flatMap (·.returned)

def cells (r : RingBuffer) (start taken : UInt64) : List Nat :=
  let firstRun := min taken (r.slots - start)
  List.range' start.toNat firstRun.toNat ++ List.range (taken - firstRun).toNat

/-- The cells the producer is copying into, up to the store of its index. -/
def writing (s : System) : List Nat :=
  match s.producer with
  | .idle => []
  | .loaded data head tail _ => cells s.ring head (s.ring.writable head tail data.bytes)
  | .copied _ head taken _ => cells s.ring head taken

/-- The cells the consumer may copy from: all that are held. -/
def readable (s : System) : List Nat := cells s.ring s.ring.tail s.ring.size

def reading (s : System) : List Nat :=
  match s.consumer with
  | .idle => []
  | .loaded capacity tail head _ => cells s.ring tail (s.ring.readable tail head capacity)
  | .copied _ _ tail taken _ => cells s.ring tail taken

/-- A queue of `capacity` bytes, first in first out. -/
structure Fifo (capacity : UInt64) (s : System) : Prop where
  returned_prefix : s.returned <+: s.accepted
  published_eq : s.published = s.returned ++ s.ring.held
  held_le : s.ring.held.length ≤ capacity.toNat
  disjoint : s.writing.Disjoint s.readable
  reading_subset : s.reading ⊆ s.readable
  writes_take : ∀ w ∈ s.writes, w.taken = min w.offered.length w.free
  reads_take : ∀ r ∈ s.reads, r.returned.length = min r.requested r.held
  head_lt : s.ring.head < s.ring.slots
  tail_lt : s.ring.tail < s.ring.slots

end System

end OakBarrels.Bulk
