import OakBarrels.Lib.Octets

/-!
# Transports

One session's byte channel: what a read brings, and what a write comes to.
-/

open Octets

namespace OakBarrels

/-- Largest single read or write any transport will issue. -/
def kMaxIoChunk : Nat := 64 * 1024

/-- What a read brought that was neither the end of the stream nor an error. -/
structure Chunk where
  data : Bytes
  nonempty : data ≠ []
  fits : data.length ≤ kMaxIoChunk

/-- What the last read of a session says: the host closed its end, or reading failed. -/
inductive Ending
  | closed
  | failed
deriving DecidableEq, Repr

/-- A call of `Transport::write` that has come back. -/
structure Outcome (bytes : Bytes) where
  delivered : Bytes
  ok : Bool
  delivered_le : delivered <+: bytes
  ok_iff : ok = true ↔ delivered = bytes

/-- The outcome of each write of a session, by its number. -/
abbrev Transport := Nat → (bytes : Bytes) → Outcome bytes

structure Write where
  bytes : Bytes
  outcome : Outcome bytes

/-- What `TransportSink` makes of the frames it is given. -/
def Transport.writes (transport : Transport) (frames : List Bytes) : List Write :=
  frames.mapIdx fun n bytes => ⟨bytes, transport n bytes⟩

/-- What has reached the host. -/
def received (writes : List Write) : Bytes := writes.flatMap (·.outcome.delivered)

def offered (writes : List Write) : Bytes := writes.flatMap (·.bytes)

@[simp] theorem Transport.writes_nil (transport : Transport) : transport.writes [] = [] := rfl

theorem Transport.writes_append (transport : Transport) (frames more : List Bytes) :
    transport.writes (frames ++ more) = transport.writes frames ++
      more.mapIdx fun n bytes => ⟨bytes, transport (n + frames.length) bytes⟩ := List.mapIdx_append

@[simp] theorem Transport.writes_bytes (transport : Transport) (frames : List Bytes) :
    (transport.writes frames).map (·.bytes) = frames := by
  apply List.ext_getElem?
  intro n
  simp [writes, Function.comp_def]

@[simp] theorem Transport.writes_getElem? (transport : Transport) (frames : List Bytes) (n : Nat) :
    (transport.writes frames)[n]? = frames[n]?.map fun bytes => ⟨bytes, transport n bytes⟩ := by
  simp [writes]

/-- A write that is delivered in full. -/
def Outcome.full (bytes : Bytes) : Outcome bytes := ⟨bytes, true, List.prefix_refl _, by simp⟩

/-- A write of which the first bytes are delivered. -/
def Outcome.upTo (count : Nat) (bytes : Bytes) : Outcome bytes :=
  ⟨bytes.take count, bytes.take count = bytes, List.take_prefix .., by simp⟩

/-! ## The loop over the system's call -/

/-- What one call of the system's `write` says. -/
inductive SystemWrite
  | interrupted
  | failed
  | accepted (count : Nat)
deriving DecidableEq, Repr

/-- The loop of `StdioTransport::write`, from what it has still to write and what is written. Nothing
where the answers run out: the call has not come back. -/
def writeLoop : List SystemWrite → Bytes → Bytes → Option (Bytes × Bool)
  | [], rest, written => if rest = [] then some (written, true) else none
  | answer :: answers, rest, written =>
    if rest = [] then some (written, true)
    else
      match answer with
      | .interrupted => writeLoop answers rest written
      | .failed => some (written, false)
      | .accepted count =>
        if count = 0 then some (written, false)
        else
          let taken := min count (min rest.length kMaxIoChunk)
          writeLoop answers (rest.drop taken) (written ++ rest.take taken)

/-- Every way the loop comes back is an outcome of its bytes. -/
theorem writeLoop_outcome {answers : List SystemWrite} {rest written : Bytes} {r : Bytes × Bool}
    (h : writeLoop answers rest written = some r) :
    ∃ outcome : Outcome (written ++ rest), outcome.delivered = r.1 ∧ outcome.ok = r.2 := by
  have hdone : ∀ written : Bytes, ∃ outcome : Outcome (written ++ []),
      outcome.delivered = written ∧ outcome.ok = true := by
    intro written
    exact ⟨⟨written, true, by simp, by simp⟩, rfl, rfl⟩
  have hfailed : ∀ written rest : Bytes, rest ≠ [] → ∃ outcome : Outcome (written ++ rest),
      outcome.delivered = written ∧ outcome.ok = false := by
    intro written rest hrest
    exact ⟨⟨written, false, List.prefix_append .., by simpa using hrest⟩, rfl, rfl⟩
  induction answers generalizing rest written with
  | nil =>
    unfold writeLoop at h
    split at h
    · rename_i hrest
      subst hrest
      cases h
      exact hdone written
    · cases h
  | cons answer answers ih =>
    unfold writeLoop at h
    split at h
    · rename_i hrest
      subst hrest
      cases h
      exact hdone written
    · rename_i hrest
      cases answer with
      | interrupted => exact ih h
      | failed =>
        cases h
        exact hfailed written rest hrest
      | accepted count =>
        simp only at h
        split at h
        · cases h
          exact hfailed written rest hrest
        · have hmore := ih h
          rwa [List.append_assoc, List.take_append_drop] at hmore

/-- Every outcome is one the loop can come back with. -/
theorem outcome_writeLoop {bytes : Bytes} (outcome : Outcome bytes) :
    ∃ answers, writeLoop answers bytes [] = some (outcome.delivered, outcome.ok) := by
  have hone : ∀ delivered rest written : Bytes, ∀ answers : List SystemWrite,
      writeLoop (List.replicate delivered.length (.accepted 1) ++ answers) (delivered ++ rest) written
        = writeLoop answers rest (written ++ delivered) := by
    intro delivered rest
    induction delivered with
    | nil => simp
    | cons b delivered ih =>
      intro written answers
      rw [List.length_cons, List.replicate_succ, List.cons_append, writeLoop]
      simp only [List.cons_append, reduceCtorEq, if_false, Nat.one_ne_zero]
      have hlen : min 1 (min (b :: (delivered ++ rest)).length kMaxIoChunk) = 1 := by
        simp [kMaxIoChunk]
      rw [hlen]
      simpa using ih (written ++ [b]) answers
  obtain ⟨delivered, ok, ⟨rest, rfl⟩, hok⟩ := outcome
  refine ⟨List.replicate delivered.length (.accepted 1) ++ [.failed], ?_⟩
  rw [hone, List.nil_append, writeLoop]
  cases ok with
  | true =>
    have hrest : rest = [] := by simpa using hok.mp rfl
    simp [hrest]
  | false =>
    have hrest : rest ≠ [] := by
      rintro rfl
      simp at hok
    simp [hrest]

end OakBarrels
