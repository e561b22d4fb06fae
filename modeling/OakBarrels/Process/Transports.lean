import OakBarrels.Process.System

/-!
# The transports of the process

Standard input and output, and a socket that serves one connection: how it is made, waits, reads and
writes, and what its destructor gives back.
-/

open Octets

namespace OakBarrels.Process

open Dialogue (Turned spec_pure spec_ask spec_loop)

structure UnixSocketTransport where
  listenFd : Option Nat
  connectionFd : Option Nat
  path : Bytes

namespace UnixSocketTransport

/-- `sunPath` is the size of `sun_path`, which is the platform's. -/
def prepare (sunPath : Nat) (path : Bytes) : Program (Except Bytes UnixSocketTransport) :=
  if path = [] then pure (.error (ascii "a socket path is required"))
  else if sunPath ≤ path.length then
    pure (.error (ascii "the socket path is too long for this platform"))
  else do
    match ← System.socket with
    | none => pure (.error (ascii "could not create a socket"))
    | some fd =>
      if ← System.bind fd path then
        if ← System.listen fd then pure (.ok ⟨some fd, none, path⟩)
        else
          System.close fd
          System.unlink path
          pure (.error (ascii "could not listen on the socket"))
      else
        System.close fd
        pure (.error (ascii "could not bind the socket path"))

def acceptTurn (t : UnixSocketTransport) (fd : Nat) :
    Unit → Program (Unit ⊕ Except Bytes UnixSocketTransport) := fun _ => do
  match ← System.accept fd with
  | .interrupted => pure (.inl ())
  | .failed => pure (.inr (.error (ascii "accepting the connection failed")))
  | .connected connection =>
    System.close fd
    pure (.inr (.ok { t with connectionFd := some connection, listenFd := none }))

theorem acceptTurn_asks (t : UnixSocketTransport) (fd : Nat) (u : Unit) : (t.acceptTurn fd u).Asks :=
  .bind (Dialogue.Program.asks_ask _) _

def acceptOne (t : UnixSocketTransport) : Program (Except Bytes UnixSocketTransport) :=
  match t.listenFd with
  | none => pure (.error (ascii "not listening"))
  | some fd => .loop (t.acceptTurn fd) (Dialogue.Program.turns_of_asks (t.acceptTurn_asks fd)) ()

def closeIf : Option Nat → Program Unit
  | none => pure ()
  | some fd => System.close fd

/-- `~UnixSocketTransport`. -/
def destroy (t : UnixSocketTransport) : Program Unit := do
  closeIf t.connectionFd
  closeIf t.listenFd
  if t.path ≠ [] then System.unlink t.path

end UnixSocketTransport

/-! ## Reading and writing -/

/-- The body of the loop of a `read`. -/
def receiveTurn (channel : Channel) : Unit → Program (Unit ⊕ (Ending ⊕ Chunk)) := fun _ => do
  match ← System.read channel kMaxIoChunk with
  | .interrupted => pure (.inl ())
  | .failed => pure (.inr (.inl .failed))
  | .brought data fits =>
    if h : data = [] then pure (.inr (.inl .closed)) else pure (.inr (.inr ⟨data, h, fits⟩))

theorem receiveTurn_asks (channel : Channel) (u : Unit) : (receiveTurn channel u).Asks :=
  .bind (Dialogue.Program.asks_ask _) _

def receive (channel : Channel) : Program (Ending ⊕ Chunk) :=
  .loop (receiveTurn channel) (Dialogue.Program.turns_of_asks (receiveTurn_asks channel)) ()

/-- The body of the loop of a `write`, with something still to write. -/
def sendTurn (channel : Channel) (rest : Bytes) : Program (Bytes ⊕ Bool) := do
  match ← System.write channel (rest.take kMaxIoChunk) with
  | .interrupted => pure (.inl rest)
  | .failed => pure (.inr false)
  | .taken count _ =>
    if count = 0 then pure (.inr false)
    else if rest.drop count = [] then pure (.inr true)
    else pure (.inl (rest.drop count))

theorem sendTurn_asks (channel : Channel) (rest : Bytes) : (sendTurn channel rest).Asks :=
  .bind (Dialogue.Program.asks_ask _) _

def send (channel : Channel) (bytes : Bytes) : Program Bool :=
  if bytes = [] then pure true
  else .loop (sendTurn channel) (Dialogue.Program.turns_of_asks (sendTurn_asks channel)) bytes

/-- The transport of the session. -/
inductive ControlTransport
  | stdio
  | unixSocket (t : UnixSocketTransport)

namespace ControlTransport

def read : ControlTransport → Program (Ending ⊕ Chunk)
  | .stdio => receive .standard
  | .unixSocket t =>
    match t.connectionFd with
    | none => pure (.inl .closed)
    | some fd => receive (.connection fd)

def write (bytes : Bytes) : ControlTransport → Program Bool
  | .stdio => send .standard bytes
  | .unixSocket t =>
    match t.connectionFd with
    | none => pure false
    | some fd => send (.connection fd) bytes

def destroy : ControlTransport → Program Unit
  | .stdio => pure ()
  | .unixSocket t => t.destroy

end ControlTransport

/-! ## What each of them does -/

theorem spec_call {call : Call} {ledger : Ledger} {post : Answer call → Ledger → Prop}
    (hallows : ledger.allows call) (h : ∀ answer, post answer (ledger.next ⟨call, answer⟩)) :
    Spec (Dialogue.Program.ask call) ledger post :=
  spec_ask hallows h

namespace UnixSocketTransport

/-- A socket and its file, or nothing at all. -/
def Prepared (path : Bytes) (ledger : Ledger) : Except Bytes UnixSocketTransport → Ledger → Prop
  | .error _, after => after = ledger
  | .ok t, after => path ≠ [] ∧ ∃ fd, t = ⟨some fd, none, path⟩ ∧ after = { ledger with
      opened := fd ::ₘ ledger.opened
      bound := path ::ₘ ledger.bound
      listening := fd ::ₘ ledger.listening }

theorem prepare_spec (sunPath : Nat) (path : Bytes) (ledger : Ledger) :
    Spec (prepare sunPath path) ledger (Prepared path ledger) := by
  unfold prepare
  split
  · exact spec_pure rfl
  rename_i hpath
  split
  · exact spec_pure rfl
  refine .bind (spec_call trivial fun answer => ?_)
  cases answer with
  | none => exact spec_pure rfl
  | some fd =>
    refine .bind (spec_call (Multiset.mem_cons_self fd ledger.opened) fun bound => ?_)
    cases bound with
    | false =>
      refine .bind (spec_call (Multiset.mem_cons_self fd ledger.opened) fun _ => ?_)
      refine spec_pure ?_
      simp [Prepared, Ledger.next, Ledger.closing, Ledger.binding, Ledger.opening]
    | true =>
      refine .bind (spec_call (Multiset.mem_cons_self fd ledger.opened) fun listens => ?_)
      cases listens with
      | true => exact spec_pure ⟨hpath, fd, rfl, rfl⟩
      | false =>
        refine .bind (spec_call (Multiset.mem_cons_self fd ledger.opened) fun _ => ?_)
        refine .bind (spec_call (Multiset.mem_cons_self path ledger.bound) fun _ => ?_)
        refine spec_pure ?_
        simp [Prepared, Ledger.next, Ledger.closing, Ledger.unlinking, Ledger.binding,
          Ledger.listen, Ledger.opening]

/-- A connection instead of the socket that listened. -/
def Connected (t : UnixSocketTransport) (fd : Nat) (ledger : Ledger) :
    Except Bytes UnixSocketTransport → Ledger → Prop
  | .error _, after => after = ledger
  | .ok t', after => ∃ connection, t' = ⟨none, some connection, t.path⟩ ∧ after = { ledger with
      opened := (connection ::ₘ ledger.opened).erase fd
      listening := ledger.listening.erase fd }

theorem acceptOne_spec {t : UnixSocketTransport} {fd : Nat} {ledger : Ledger} (ht : t.listenFd = some fd)
    (hopened : fd ∈ ledger.opened) (hlistening : fd ∈ ledger.listening) :
    Spec t.acceptOne ledger (t.Connected fd ledger) := by
  unfold acceptOne
  rw [ht]
  refine spec_loop (fun _ after => after = ledger) rfl ?_
  rintro _ _ rfl
  refine .bind (spec_call ⟨hopened, hlistening⟩ fun answer => ?_)
  cases answer with
  | interrupted => exact spec_pure rfl
  | failed => exact spec_pure rfl
  | connected connection =>
    refine .bind (spec_call (Multiset.mem_cons_of_mem hopened) fun _ => ?_)
    exact spec_pure ⟨connection, rfl, rfl⟩

/-- What a transport has open. -/
def descriptors (t : UnixSocketTransport) : Multiset Nat := t.connectionFd.toList ++ t.listenFd.toList

theorem closeIf_spec {fd? : Option Nat} {ledger : Ledger} {rest : Multiset Nat}
    (hopened : ledger.opened = fd?.toList + rest) :
    Spec (closeIf fd?) ledger fun _ after => after = { ledger with opened := rest } := by
  cases fd? with
  | none =>
    refine spec_pure ?_
    rw [show rest = ledger.opened by simpa using hopened.symm]
  | some fd =>
    have hcons : ledger.opened = fd ::ₘ rest := by simpa using hopened
    refine spec_call (by simp [Ledger.allows, hcons]) fun _ => ?_
    simp [Ledger.next, Ledger.closing, hcons]

/-- The destructor gives everything back. -/
theorem destroy_spec {t : UnixSocketTransport} {ledger : Ledger} {rest : Multiset Nat}
    {files : Multiset Bytes} (hpath : t.path ≠ []) (hopened : ledger.opened = t.descriptors + rest)
    (hbound : ledger.bound = t.path ::ₘ files) : Spec t.destroy ledger fun _ after =>
      after = { ledger with opened := rest, bound := files } := by
  have hfirst : ledger.opened = t.connectionFd.toList + (t.listenFd.toList + rest) := by
    rw [hopened, descriptors, ← Multiset.coe_add, add_assoc]
  refine .bind ((closeIf_spec hfirst).mono ?_)
  rintro _ _ rfl
  refine .bind ((closeIf_spec rfl).mono ?_)
  rintro _ _ rfl
  rw [if_pos hpath]
  refine spec_call (by simp [Ledger.allows, hbound]) fun _ => ?_
  simp [Ledger.next, Ledger.unlinking, hbound]

end UnixSocketTransport

/-! ## What reading and writing do -/

theorem holds_gave {ledger : Ledger} {channel : Channel} (bytes : Bytes)
    (h : ledger.holds channel) : (ledger.gave bytes).holds channel := by
  cases channel <;> exact h

/-- What a read has brought is on record. -/
def Received (ledger : Ledger) : Ending ⊕ Chunk → Ledger → Prop
  | .inl _, after => after = ledger
  | .inr chunk, after => after = ledger.took chunk.data

theorem receive_spec {channel : Channel} {ledger : Ledger} (hholds : ledger.holds channel) :
    Spec (receive channel) ledger (Received ledger) := by
  unfold receive
  refine spec_loop (fun _ after => after = ledger) rfl ?_
  rintro _ _ rfl
  refine .bind (spec_call hholds fun answer => ?_)
  cases answer with
  | interrupted => exact spec_pure rfl
  | failed => exact spec_pure rfl
  | brought data fits =>
    simp only [Ledger.next, Ledger.reading]
    by_cases hend : data = []
    · rw [dif_pos hend, if_pos hend]
      exact spec_pure rfl
    · rw [dif_neg hend, if_neg hend]
      exact spec_pure rfl

/-- What was delivered of a write is on record, and the result is true. -/
def Sent (bytes : Bytes) (ledger : Ledger) (ok : Bool) (after : Ledger) : Prop :=
  ∃ outcome : Outcome bytes, ok = outcome.ok ∧ after = ledger.gave outcome.delivered

theorem sent_failed {part rest bytes : Bytes} (ledger : Ledger) (h : part ++ rest = bytes)
    (hrest : rest ≠ []) : Sent bytes ledger false (ledger.gave part) := by
  subst h
  exact ⟨⟨part, false, List.prefix_append _ _, by simpa using hrest⟩, rfl, rfl⟩

/-- A loop that has written a part of it. -/
def Writing (bytes : Bytes) (ledger : Ledger) (rest : Bytes) (after : Ledger) : Prop :=
  rest ≠ [] ∧ ∃ part, part ++ rest = bytes ∧ after = ledger.gave part

theorem sendTurn_spec {channel : Channel} {bytes : Bytes} {ledger : Ledger}
    (hholds : ledger.holds channel) {rest : Bytes} {after : Ledger}
    (h : Writing bytes ledger rest after) :
    Spec (sendTurn channel rest) after
      (Turned (m := monitor) (Writing bytes ledger) (Sent bytes ledger)) := by
  obtain ⟨hrest, part, hpart, rfl⟩ := h
  refine .bind (spec_call (holds_gave part hholds) fun answer => ?_)
  cases answer with
  | interrupted => exact spec_pure ⟨hrest, part, hpart, rfl⟩
  | failed => exact spec_pure (sent_failed ledger hpart hrest)
  | taken count fits =>
    have htaken : (rest.take kMaxIoChunk).take count = rest.take count := by
      rw [List.length_take] at fits
      rw [List.take_take, Nat.min_eq_left (by omega)]
    have hmore : part ++ rest.take count ++ rest.drop count = bytes := by
      rw [List.append_assoc, List.take_append_drop, hpart]
    simp only [Ledger.next, Ledger.writing, htaken, Ledger.gave_gave]
    split
    · rename_i hzero
      rw [hzero, List.take_zero, List.append_nil]
      exact spec_pure (sent_failed ledger hpart hrest)
    · split
      · rename_i hdone
        rw [hdone, List.append_nil] at hmore
        rw [hmore]
        exact spec_pure ⟨.full bytes, rfl, rfl⟩
      · rename_i hrest'
        exact spec_pure ⟨hrest', _, hmore, rfl⟩

theorem send_spec {channel : Channel} {ledger : Ledger} (hholds : ledger.holds channel) (bytes : Bytes) :
    Spec (send channel bytes) ledger (Sent bytes ledger) := by
  unfold send
  split
  · rename_i hnone
    subst hnone
    exact spec_pure ⟨.full [], rfl, (ledger.gave_nil).symm⟩
  · rename_i hsome
    refine spec_loop (Writing bytes ledger) ⟨hsome, [], rfl, (ledger.gave_nil).symm⟩ ?_
    exact fun rest after h => sendTurn_spec hholds h

namespace ControlTransport

/-- The transport is connected, and what it has open is held. -/
def Ready (ledger : Ledger) : ControlTransport → Prop
  | .stdio => True
  | .unixSocket t => ∃ fd, t = ⟨none, some fd, t.path⟩ ∧ t.path ≠ [] ∧ fd ∈ ledger.opened

theorem read_spec {transport : ControlTransport} {ledger : Ledger} (h : transport.Ready ledger) :
    Spec transport.read ledger (Received ledger) := by
  cases transport with
  | stdio => exact receive_spec trivial
  | unixSocket t =>
    obtain ⟨fd, ht, -, hopened⟩ := h
    rw [ht]
    exact receive_spec hopened

theorem write_spec {transport : ControlTransport} {ledger : Ledger} (h : transport.Ready ledger)
    (bytes : Bytes) : Spec (transport.write bytes) ledger (Sent bytes ledger) := by
  cases transport with
  | stdio => exact @send_spec .standard ledger trivial bytes
  | unixSocket t =>
    obtain ⟨fd, ht, -, hopened⟩ := h
    rw [ht]
    exact @send_spec (.connection fd) ledger hopened bytes

end ControlTransport

end OakBarrels.Process
