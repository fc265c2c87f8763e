import Flotestro.Secrets.Model.Envelope
import Flotestro.Library.Tables

/-!
# The rewrap of the secret store

A pass reads a batch of the live versions on another key, moves them one by one in one transaction, and
is repeated until nothing is left or nothing moved.  A version that `ErrCorruptedVersion` is found in
is stepped over; any other error takes the whole transaction back.
-/

set_option autoImplicit false

namespace Flotestro.Secrets

open Library

/-- A row of `secret_versions`.  SOURCE: 0026_secrets.sql:24-40, 0090_crypto_installation_state.sql:38-40 -/
structure Row where
  secretID : Bytes
  version : Nat
  destroyed : Bool
  envelope : Envelope
  deriving DecidableEq

def Row.key (row : Row) : Bytes × Nat := (row.secretID, row.version)

/-- The order of the primary key. -/
def Row.Before (a b : Row) : Prop :=
  a.secretID < b.secretID ∨ a.secretID = b.secretID ∧ a.version < b.version

/-- The secret store, its rows in the order of their primary key. -/
structure Store where
  rows : List Row
  ordered : rows.Pairwise Row.Before

/-- SOURCE: store.go:508-515 -/
def Row.pending (active : Bytes) (row : Row) : Bool :=
  !row.destroyed && envelopeVersion ≤ row.envelope.version && row.envelope.keyID ≠ active

def Row.withEnvelope (fresh : Envelope) (row : Row) : Row := { row with envelope := fresh }

/-- The rows as the transaction has them, and what it counted. -/
structure Pass where
  rows : List Row
  moved : Nat
  damaged : Nat

variable {κ : Type} (p : Provider κ) (draw : Bytes → Nat → Nonce)

/-- The rows of a batch, in turn; an error comes with the rows moved before it.
SOURCE: store.go:548-571 -/
def moveRows (active : Bytes) : List Row → Pass → Except (Error × Nat) Pass
  | [], pass => .ok pass
  | row :: batch, pass =>
    match row.envelope.rewrap p (draw row.secretID row.version) active with
    | .ok fresh =>
      moveRows active batch
        ⟨updateKey Row.key row.key (Row.withEnvelope fresh) pass.rows, pass.moved + 1, pass.damaged⟩
    | .error e =>
      if e.isCorruptedVersion then moveRows active batch { pass with damaged := pass.damaged + 1 }
      else .error (e, pass.moved)

inductive BatchError where
  | failed (e : Error)
  | corruptedBatch (count : Nat)

/-- What a pass returns, and the store it leaves. -/
structure Batch where
  moved : Nat
  remaining : Nat
  err : Option BatchError
  rows : List Row

/-- SOURCE: store.go:495-589 -/
def rewrapBatch (limit : Nat) (rows : List Row) : Batch :=
  match p.activeKeyID with
  | .error e => ⟨0, 0, some (.failed e), rows⟩
  | .ok active =>
    match moveRows p draw active ((rows.filter (Row.pending active)).take limit) ⟨rows, 0, 0⟩ with
    -- the transaction is rolled back, and what it moved is counted all the same
    | .error (e, moved) => ⟨moved, 0, some (.failed e), rows⟩
    | .ok pass =>
      ⟨pass.moved, pass.rows.countP (Row.pending active),
        if pass.damaged > 0 then some (.corruptedBatch pass.damaged) else none, pass.rows⟩

/-- SOURCE: state.go:731-732 -/
def batchLimit : Nat := 200

/-- The store when the rewrap ends, with what it says of it. -/
structure Report where
  rows : List Row
  total : Nat
  unreadable : Nat

/-- The versions found damaged by a pass that moved none. -/
def Batch.unreadable (batch : Batch) (unreadable : Nat) : Nat :=
  match batch.err with
  | some (.corruptedBatch count) => if batch.moved = 0 then count else unreadable
  | _ => unreadable

/-- The passes of a rewrap, at most as many as the fuel.  SOURCE: state.go:873-917 -/
def rewrapFrom : Nat → List Row → Nat → Nat → Option Report
  | 0, _, _, _ => none
  | fuel + 1, rows, total, unreadable =>
    let batch := rewrapBatch p draw batchLimit rows
    let unreadable := batch.unreadable unreadable
    if batch.err.isSome ∧ batch.moved = 0 then some ⟨batch.rows, total, unreadable⟩
    else if batch.remaining = 0 ∨ batch.moved = 0 then
      some ⟨batch.rows, total + batch.moved, unreadable⟩
    else rewrapFrom fuel batch.rows (total + batch.moved) unreadable

/-- SOURCE: state.go:864-921 -/
def rewrap (fuel : Nat) (store : Store) : Option Report := rewrapFrom p draw fuel store.rows 0 0

end Flotestro.Secrets
