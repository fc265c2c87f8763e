import Flotestro.Library.Runs

/-!
# Leases of background passes

One row of `monitoring_leases` and the transactions over it.  Every transaction reads `now()` as the
moment it began.  A statement that waits for the lock of the row reads the row as the last commit
left it; the statement of `Take` does not wait.  The lock is kept to the end of the transaction, and
what the transaction wrote becomes the row when it commits.
-/

set_option autoImplicit false

namespace Flotestro.Leases

variable {ι : Type}

/-- A row of `monitoring_leases`. -/
structure Row (ι : Type) where
  holder : Option ι
  token : Int
  leaseUntil : Option Int

/-- A lease as an instance carries it; no holder is the empty one.
SOURCE: leases.go:20-31 -/
structure Lease (ι : Type) where
  holder : Option ι
  token : Int

def maxToken : Int := 9223372036854775807

/-- The term has not run out at the moment. -/
def Row.untilAfter (row : Row ι) (now : Int) : Bool :=
  match row.leaseUntil with
  | none => false
  | some u => now < u

/-- There is no term, or it ran out before the moment. -/
def Row.lapsed (row : Row ι) (now : Int) : Bool :=
  match row.leaseUntil with
  | none => true
  | some u => u < now

variable [DecidableEq ι]

/-- The row is the lease's holder's, under its token. -/
def Row.carries (row : Row ι) (lease : Lease ι) : Prop :=
  lease.holder ≠ none ∧ row.holder = lease.holder ∧ row.token = lease.token

instance decidableCarries (row : Row ι) (lease : Lease ι) : Decidable (row.carries lease) :=
  inferInstanceAs (Decidable (_ ∧ _))

/-- The row `Take` leaves; a token that leaves the range of its column fails the
statement.  SOURCE: leases.go:42-74 -/
def take (now term : Int) (holder : ι) (row : Row ι) : Option (Row ι) :=
  if row.holder = none ∨ row.holder = some holder ∨ row.lapsed now then
    let token := if row.holder = some holder then row.token else row.token + 1
    if token ≤ maxToken then
      some { holder := some holder, token := token, leaseUntil := some (now + term) }
    else none
  else none

/-- SOURCE: leases.go:76-91 -/
def renew (now term : Int) (lease : Lease ι) (row : Row ι) : Option (Row ι) :=
  if row.carries lease ∧ row.untilAfter now then
    some { row with leaseUntil := some (now + term) }
  else none

/-- SOURCE: leases.go:93-103 -/
def release (lease : Lease ι) (row : Row ι) : Option (Row ι) :=
  if row.carries lease then some { row with holder := none, leaseUntil := none } else none

/-- The row is locked and stays as it is.  SOURCE: leases.go:126-146 -/
def assert (now : Int) (lease : Lease ι) (row : Row ι) : Option (Row ι) :=
  if row.carries lease ∧ row.untilAfter now then some row else none

/-- What a transaction does to the row of the lease. -/
inductive Request (ι : Type) where
  | take (holder : ι) (term : Int)
  | renew (lease : Lease ι) (term : Int)
  | release (lease : Lease ι)
  | fenced (lease : Lease ι)

def Request.isTake : Request ι → Bool
  | .take _ _ => true
  | _ => false

/-- The row as a transaction leaves it, or `none` when its condition finds no row. -/
def Request.effect (request : Request ι) (now : Int) (row : Row ι) : Option (Row ι) :=
  match request with
  | .take holder term => Leases.take now term holder row
  | .renew lease term => Leases.renew now term lease row
  | .release lease => Leases.release lease row
  | .fenced lease => Leases.assert now lease row

/-- An open transaction and the moment it began. -/
structure Tx (ι : Type) where
  request : Request ι
  began : Int

/-- The database: the committed row, the transaction that has its lock with the row as that
transaction will leave it, and the open transactions. -/
structure Database (ι : Type) where
  now : Int
  row : Row ι
  lock : Option (Nat × Row ι)
  txs : Nat → Option (Tx ι)

inductive Event (ι : Type) where
  /-- Time passes. -/
  | tick (by_ : Nat)
  /-- A transaction begins. -/
  | begin (n : Nat) (request : Request ι)
  /-- The statement of a transaction comes to the row and finds it unlocked. -/
  | reach (n : Nat)
  /-- `Take` comes to the row and finds it locked. -/
  | skip (n : Nat)
  | commit (n : Nat)
  | abort (n : Nat)

namespace Database

def setTx (s : Database ι) (n : Nat) (tx : Option (Tx ι)) : Database ι :=
  { s with txs := fun m => if m = n then tx else s.txs m }

/-- The lock is the transaction's. -/
def locks (s : Database ι) (n : Nat) : Bool :=
  match s.lock with
  | none => false
  | some (m, _) => m = n

def unlocked (s : Database ι) (n : Nat) : Database ι :=
  if s.locks n then { s with lock := none } else s

/-- A transaction whose condition finds no row is over. -/
def reach (s : Database ι) (n : Nat) (tx : Tx ι) : Database ι :=
  match tx.request.effect tx.began s.row with
  | none => s.setTx n none
  | some row => { s with lock := some (n, row) }

def step : Event ι → Database ι → Option (Database ι)
  | .tick d, s => some { s with now := s.now + d }
  | .begin n request, s =>
    if s.txs n = none then some (s.setTx n (some ⟨request, s.now⟩)) else none
  | .reach n, s =>
    match s.txs n, s.lock with
    | some tx, none => some (s.reach n tx)
    | _, _ => none
  | .skip n, s =>
    match s.txs n, s.lock with
    | some tx, some (m, _) => if tx.request.isTake ∧ m ≠ n then some (s.setTx n none) else none
    | _, _ => none
  | .commit n, s =>
    match s.lock with
    | some (m, row) => if m = n then some ({ s with row := row, lock := none }.setTx n none) else none
    | none => none
  | .abort n, s => some ((s.unlocked n).setTx n none)

/-- A database with no transaction open. -/
structure Quiet (s : Database ι) : Prop where
  lock : s.lock = none
  txs : ∀ n, s.txs n = none

end Database

end Flotestro.Leases
