import OakBarrels.Lib.Dialogue
import OakBarrels.Transport

/-!
# What the process asks of the system

The calls of a station on a unix system, with their answers, and what the process holds and has passed
on after them.
-/

open Octets

namespace OakBarrels.Process

/-- Standard input and output, or a connection. -/
inductive Channel
  | standard
  | connection (fd : Nat)
deriving DecidableEq, Repr

/-- `load` is the reading of a whole file, and `stop` the end of the audio worker, which the system may
not bring about in time. -/
inductive Call
  | socket
  | bind (fd : Nat) (path : Bytes)
  | listen (fd : Nat)
  | accept (fd : Nat)
  | close (fd : Nat)
  | unlink (path : Bytes)
  | read (channel : Channel) (count : Nat)
  | write (channel : Channel) (bytes : Bytes)
  | load (path : Bytes)
  | stop

inductive Accepted
  | interrupted
  | failed
  | connected (fd : Nat)

/-- Nothing is brought at the end of the stream. -/
inductive Brought (limit : Nat)
  | interrupted
  | failed
  | brought (data : Bytes) (fits : data.length ≤ limit)

inductive Taken (limit : Nat)
  | interrupted
  | failed
  | taken (count : Nat) (fits : count ≤ limit)

def Answer : Call → Type
  | .socket => Option Nat
  | .bind _ _ => Bool
  | .listen _ => Bool
  | .accept _ => Accepted
  | .close _ => Unit
  | .unlink _ => Unit
  | .read _ count => Brought count
  | .write _ bytes => Taken bytes.length
  | .load _ => Option Bytes
  | .stop => Bool

abbrev Program := Dialogue.Program Answer

/-- What is open, what listens, which socket files are there, how many workers would not stop, which
files were loaded, and what has come in and gone out. -/
structure Ledger where
  opened : Multiset Nat
  listening : Multiset Nat
  bound : Multiset Bytes
  stuck : Nat
  loaded : List (Option Bytes)
  read : List Bytes
  sent : Bytes

namespace Ledger

def fresh : Ledger := ⟨0, 0, 0, 0, [], [], []⟩

def holds (ledger : Ledger) : Channel → Prop
  | .standard => True
  | .connection fd => fd ∈ ledger.opened

/-- Nothing is used or closed that is not open, and no file removed that was not made. -/
def allows (ledger : Ledger) : Call → Prop
  | .socket => True
  | .bind fd _ => fd ∈ ledger.opened
  | .listen fd => fd ∈ ledger.opened
  | .accept fd => fd ∈ ledger.opened ∧ fd ∈ ledger.listening
  | .close fd => fd ∈ ledger.opened
  | .unlink path => path ∈ ledger.bound
  | .read channel _ => ledger.holds channel
  | .write channel _ => ledger.holds channel
  | .load _ => True
  | .stop => True

def opening (ledger : Ledger) : Option Nat → Ledger
  | some fd => { ledger with opened := fd ::ₘ ledger.opened }
  | none => ledger

def binding (ledger : Ledger) (path : Bytes) : Bool → Ledger
  | true => { ledger with bound := path ::ₘ ledger.bound }
  | false => ledger

def listen (ledger : Ledger) (fd : Nat) : Bool → Ledger
  | true => { ledger with listening := fd ::ₘ ledger.listening }
  | false => ledger

/-- A socket that has brought a connection listens no more. -/
def accepting (ledger : Ledger) (fd : Nat) : Accepted → Ledger
  | .connected connection =>
    { ledger with opened := connection ::ₘ ledger.opened, listening := ledger.listening.erase fd }
  | _ => ledger

def closing (ledger : Ledger) (fd : Nat) : Ledger :=
  { ledger with opened := ledger.opened.erase fd }

def unlinking (ledger : Ledger) (path : Bytes) : Ledger :=
  { ledger with bound := ledger.bound.erase path }

def took (ledger : Ledger) (data : Bytes) : Ledger := { ledger with read := ledger.read ++ [data] }

def gave (ledger : Ledger) (bytes : Bytes) : Ledger := { ledger with sent := ledger.sent ++ bytes }

@[simp] theorem gave_nil (ledger : Ledger) : ledger.gave [] = ledger := by simp [gave]

@[simp] theorem gave_gave (ledger : Ledger) (a b : Bytes) :
    (ledger.gave a).gave b = ledger.gave (a ++ b) := by simp [gave]

def reading {limit : Nat} (ledger : Ledger) : Brought limit → Ledger
  | .brought data _ => if data = [] then ledger else ledger.took data
  | _ => ledger

def writing {limit : Nat} (ledger : Ledger) (bytes : Bytes) : Taken limit → Ledger
  | .taken count _ => ledger.gave (bytes.take count)
  | _ => ledger

def loading (ledger : Ledger) (contents : Option Bytes) : Ledger :=
  { ledger with loaded := ledger.loaded ++ [contents] }

def stopping (ledger : Ledger) : Bool → Ledger
  | true => ledger
  | false => { ledger with stuck := ledger.stuck + 1 }

def next (ledger : Ledger) : Dialogue.Exchange Answer → Ledger
  | ⟨.socket, answer⟩ => ledger.opening answer
  | ⟨.bind _ path, answer⟩ => ledger.binding path answer
  | ⟨.listen fd, answer⟩ => ledger.listen fd answer
  | ⟨.accept fd, answer⟩ => ledger.accepting fd answer
  | ⟨.close fd, _⟩ => ledger.closing fd
  | ⟨.unlink path, _⟩ => ledger.unlinking path
  | ⟨.read _ _, answer⟩ => ledger.reading answer
  | ⟨.write _ bytes, answer⟩ => ledger.writing bytes answer
  | ⟨.load _, answer⟩ => ledger.loading answer
  | ⟨.stop, answer⟩ => ledger.stopping answer

end Ledger

abbrev monitor : Dialogue.Monitor Answer where
  State := Ledger
  start := .fresh
  allows := Ledger.allows
  next := Ledger.next

abbrev Spec {α : Type} (p : Program α) (ledger : Ledger) (post : α → Ledger → Prop) : Prop :=
  Dialogue.Spec (m := monitor) p ledger post

/-! ## The calls -/

namespace System

open Dialogue.Program (ask)

def socket : Program (Option Nat) := ask Call.socket

def bind (fd : Nat) (path : Bytes) : Program Bool := ask (Call.bind fd path)

def listen (fd : Nat) : Program Bool := ask (Call.listen fd)

def accept (fd : Nat) : Program Accepted := ask (Call.accept fd)

def close (fd : Nat) : Program Unit := ask (Call.close fd)

def unlink (path : Bytes) : Program Unit := ask (Call.unlink path)

def read (channel : Channel) (count : Nat) : Program (Brought count) := ask (Call.read channel count)

def write (channel : Channel) (bytes : Bytes) : Program (Taken bytes.length) :=
  ask (Call.write channel bytes)

def load (path : Bytes) : Program (Option Bytes) := ask (Call.load path)

def stop : Program Bool := ask Call.stop

end System

end OakBarrels.Process
