import Mathlib.Data.Nat.Basic

/-!
# The inbox of relayed messages

What the panel keeps about the messages a relay carries: a row for every session with its watermark,
and a row for every message with what became of it and who is applying it.  Every function here is
one statement of the database; times are in microseconds.
-/

set_option autoImplicit false

namespace Flotestro.RelayInbox

/-- SOURCE: 0126_relay_inbox.sql:17-21 -/
inductive State where
  | received | applied | dead
  deriving DecidableEq

/-- A row of `relay_inbox`; a row nobody has claimed has no `claimedBy`.
SOURCE: 0126_relay_inbox.sql:13-27, 0147_relay_inbox_lease.sql:12-13 -/
structure Row (ι : Type) where
  state : State
  attempts : Nat
  receivedAt : Nat
  appliedAt : Option Nat
  claimedBy : Option ι
  claimedAt : Option Nat

/-- A row of `relay_host_sequences`. -/
structure SessionRow where
  last : Int
  updatedAt : Nat

/-- SOURCE: relay_envelope.go:438-441 -/
def inboxLease : Nat := 2 * 60 * 1000000

/-- SOURCE: relay_envelope.go:473-476 -/
def inboxAttempts : Nat := 8

/-- SOURCE: relay_envelope.go:506-508 -/
def sequenceRetention : Nat := 30 * 24 * 60 * 60 * 1000000

inductive Answer where
  | fresh | retry | applied | dead | busy
  deriving DecidableEq

/-- The watermark of the session moves to a higher number.  SOURCE: relay_envelope.go:371-378 -/
def takeSequence (now : Nat) (sequence : Int) : Option SessionRow → Option SessionRow
  | none => some ⟨sequence, now⟩
  | some s => if s.last < sequence then some ⟨sequence, now⟩ else some s

variable {ι : Type}

/-- The row of a message nobody has claimed before.  SOURCE: relay_envelope.go:379-384 -/
def noteRow (now : Nat) (me : ι) : Option (Row ι) → Option (Row ι)
  | none => some ⟨.received, 0, now, none, some me, some now⟩
  | some row => some row

/-- What the statement of the claim tells, from the row it found; `none` where the lease has
to be asked for.  SOURCE: relay_envelope.go:402-434 -/
def claimAnswer : Option (Row ι) → Option Answer
  | none => some .fresh
  | some row =>
    match row.state with
    | .applied => some .applied
    | .dead => some .dead
    | .received => none

/-- Nobody holds the row, or the holder's lease ran out. -/
def Row.free (now : Nat) (row : Row ι) : Bool :=
  match row.claimedBy, row.claimedAt with
  | some _, some claimed => claimed + inboxLease < now
  | _, _ => true

/-- The row with this delivery for its owner, where the statement finds one to take.
SOURCE: relay_envelope.go:443-459 -/
def lease (now : Nat) (me : ι) : Option (Row ι) → Option (Row ι)
  | none => none
  | some row =>
    if row.state = .received ∧ row.free now then
      some { row with claimedBy := some me, claimedAt := some now }
    else none

/-- SOURCE: relay_envelope.go:461-471 -/
def noteApplied (now : Nat) (row : Row ι) : Row ι :=
  if row.state = .applied then row
  else { row with state := .applied, appliedAt := some now, claimedBy := none, claimedAt := none }

/-- SOURCE: relay_envelope.go:478-504 -/
def noteFailure (row : Row ι) : Row ι :=
  { row with
    attempts := row.attempts + 1
    claimedBy := none
    claimedAt := none
    state := if inboxAttempts ≤ row.attempts + 1 then .dead else row.state }

/-- Whether the sweep of the inbox deletes a row.  SOURCE: relay_envelope.go:527-536 -/
def sweptRow (now : Nat) (session : Option SessionRow) (row : Row ι) : Bool :=
  row.state ≠ .received && (row.appliedAt.getD row.receivedAt + sequenceRetention < now) &&
    session.isNone

/-- The session row after the sweep of the sessions.  SOURCE: relay_envelope.go:537-542 -/
def sweepSession (now : Nat) : Option SessionRow → Option SessionRow
  | none => none
  | some s => if s.updatedAt + sequenceRetention < now then none else some s

end Flotestro.RelayInbox
