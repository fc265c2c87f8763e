import Mathlib.Algebra.GroupWithZero.Nat
import Mathlib.Data.Prod.Lex
import Mathlib.Data.List.Sort
import Flotestro.Library.Runs

/-!
# The trail and its consumer

Events are inserted by transactions, in a cluster that gives a transaction its identifier at some
write, an event its number at the insert, and shows both at the commit.  A consumer reads the trail in
rounds: an instance claims the round, reads a stretch of the trail, hands it to the receiver outside
every transaction and settles the answer.  Any number of instances run it, and any of them may go away
at any point.  What an event says is left out; times are in seconds.
-/

set_option autoImplicit false

namespace Flotestro.Outbox

open Library

/-- An event as it was committed; a row from before the column has no transaction. -/
structure Row where
  xid : Option Nat
  id : Nat
  deriving DecidableEq

/-- A place in the trail: the transaction and the number within it. -/
abbrev Key := ℕ ×ₗ ℕ

/-- An identifier this cluster has not assigned yet reads as the one before every other.
SOURCE: cursor.go:22-32 -/
def thisEpoch (xmax : Nat) : Option Nat → Nat
  | none => 0
  | some xid => if xmax ≤ xid then 0 else xid

/-- SOURCE: cursor.go:34-37 -/
def eventKey (xmax : Nat) (row : Row) : Key := toLex (thisEpoch xmax row.xid, row.id)

/-- SOURCE: cursor.go:46-52 -/
def cursorAt (xmax xid id : Nat) : Key := toLex (thisEpoch xmax (some xid), id)

/-- A claimed stretch of the trail.  SOURCE: consumer.go:124-134 -/
structure Round where
  events : List Row
  failures : Nat
  lastXid : Nat
  lastId : Nat
  deriving DecidableEq

/-- Where an instance is in `Deliver`. -/
inductive Phase where
  | idle
  | claimed (lastXid lastId failures : Nat)
  | delivering (round : Round)
  | accepted (round : Round)
  | refused (round : Round)
  deriving DecidableEq

structure ConsumerRow (ι : Type) where
  lastXid : Nat
  lastId : Nat
  failures : Nat
  claimedBy : Option ι
  claimedUntil : Option Nat
  nextAttemptAt : Nat

/-- The cluster, the trail, the consumer and its instances.  A running transaction has the
numbers of the events it inserted; `handed` holds the events of the rounds the receiver accepted. -/
structure World (ι : Type) where
  now : Nat
  nextXid : Nat
  xmax : Nat
  nextId : Nat
  running : Nat → Option (List Nat)
  rows : List Row
  consumer : ConsumerRow ι
  phase : ι → Phase
  handed : List Row
  dead : List Nat

namespace World

variable {ι : Type} [DecidableEq ι]

variable (s : World ι)

/-- The oldest transaction that is running, or the first that has not finished. -/
def xmin : Nat :=
  match (List.range s.xmax).find? fun xid => (s.running xid).isSome with
  | some xid => xid
  | none => s.xmax

/-- Where the consumer stands. -/
def cursor : Key := cursorAt s.xmax s.consumer.lastXid s.consumer.lastId

/-- SOURCE: consumer.go:104-107 -/
def claimTerm : Nat := 5 * 60

/-- SOURCE: consumer.go:101-102 -/
def maxBackoff : Nat := 5 * 60

/-- SOURCE: consumer.go:109-112 -/
def narrowAfter : Nat := 8

/-- SOURCE: consumer.go:114-118 -/
def deadLetterAfter : Nat := 12

/-- SOURCE: consumer.go:38-39 -/
def batch : Nat := 100

/-- The events of a round, in the order of the trail: those past the cursor whose transaction
is older than every running one.  SOURCE: consumer.go:190-206 -/
def stretch (lastXid lastId failures : Nat) : List Row :=
  ((s.rows.filter fun row =>
      cursorAt s.xmax lastXid lastId < eventKey s.xmax row ∧
        thisEpoch s.xmax row.xid < s.xmin).insertionSort
    fun row row' => eventKey s.xmax row ≤ eventKey s.xmax row').take
      (if narrowAfter ≤ failures then 1 else batch)

/-- The cursor moves to a key, and never backwards.  SOURCE: consumer.go:259-268 -/
def advanceCursor (round : Round) : ConsumerRow ι :=
  if s.cursor < toLex (round.lastXid, round.lastId) then
    { s.consumer with lastXid := round.lastXid, lastId := round.lastId }
  else s.consumer

def released (c : ConsumerRow ι) : ConsumerRow ι := { c with claimedBy := none, claimedUntil := none }

def move (i : ι) (phase : Phase) : World ι :=
  { s with phase := fun j => if j = i then phase else s.phase j }

/-- SOURCE: consumer.go:166-188 -/
def claim (i : ι) : World ι :=
  let c := s.consumer
  if c.nextAttemptAt ≤ s.now ∧ ∀ term ∈ c.claimedUntil, term < s.now then
    { s with consumer := { c with claimedBy := some i, claimedUntil := some (s.now + claimTerm) } }.move
      i (.claimed c.lastXid c.lastId c.failures)
  else s

/-- SOURCE: consumer.go:190-242 -/
def read (i : ι) (lastXid lastId failures : Nat) : World ι :=
  match (s.stretch lastXid lastId failures).getLast? with
  | none =>
    { s with consumer :=
        if s.consumer.claimedBy = some i then released s.consumer else s.consumer }.move i .idle
  | some last =>
    s.move i (.delivering ⟨s.stretch lastXid lastId failures, failures, thisEpoch s.xmax last.xid,
      last.id⟩)

/-- SOURCE: consumer.go:248-257 -/
def settle (i : ι) (round : Round) : World ι :=
  { s with consumer :=
      { released (s.advanceCursor round) with failures := 0, nextAttemptAt := s.now } }.move i .idle

/-- One event is taken out of the way of the trail.  SOURCE: consumer.go:291-324 -/
def setAside (i : ι) (round : Round) : World ι :=
  { s with
    dead := s.dead ++ (round.events.take 1).map Row.id
    consumer := { released (s.advanceCursor round) with failures := 0, nextAttemptAt := s.now } }.move
      i .idle

/-- SOURCE: consumer.go:270-289 -/
def recordFailure (i : ι) (round : Round) : World ι :=
  let failures := round.failures + 1
  if deadLetterAfter ≤ failures ∧ round.events.length = 1 then s.setAside i round
  else
    { s with consumer :=
        { released s.consumer with
          failures := failures
          nextAttemptAt := s.now + min (2 ^ min failures 8) maxBackoff } }.move i .idle

/-- A running consumer has not passed the event.  SOURCE: cursor.go:54-61 -/
def unpassed (row : Row) : Bool := s.cursor < eventKey s.xmax row

/-- What can happen.  A sweep deletes those of the events it picks by their age that the
consumer has passed. -/
inductive Event (ι : Type) where
  | tick (elapsed : Nat)
  | assign
  | insert (xid : Nat)
  | commit (xid : Nat)
  | rollback (xid : Nat)
  | claim (i : ι)
  | read (i : ι)
  | accept (i : ι)
  | refuse (i : ι)
  | settle (i : ι)
  | crash (i : ι)
  | sweep (picked : List Nat)

def setRunning (xid : Nat) (inserted : Option (List Nat)) : World ι :=
  { s with running := fun x => if x = xid then inserted else s.running x }

def step : Event ι → World ι → Option (World ι)
  | .tick elapsed, s => some { s with now := s.now + elapsed }
  | .assign, s => some { s.setRunning s.nextXid (some []) with nextXid := s.nextXid + 1 }
  | .insert xid, s =>
    match s.running xid with
    | some inserted =>
      some { s.setRunning xid (some (inserted ++ [s.nextId])) with nextId := s.nextId + 1 }
    | none => none
  | .commit xid, s =>
    match s.running xid with
    | some inserted => some { s.setRunning xid none with
        xmax := max s.xmax (xid + 1)
        rows := s.rows ++ inserted.map fun id => ⟨some xid, id⟩ }
    | none => none
  | .rollback xid, s =>
    match s.running xid with
    | some _ => some { s.setRunning xid none with xmax := max s.xmax (xid + 1) }
    | none => none
  | .claim i, s => if s.phase i = .idle then some (s.claim i) else none
  | .read i, s =>
    match s.phase i with
    | .claimed lastXid lastId failures => some (s.read i lastXid lastId failures)
    | _ => none
  | .accept i, s =>
    match s.phase i with
    | .delivering round => some ({ s with handed := s.handed ++ round.events }.move i (.accepted round))
    | _ => none
  | .refuse i, s =>
    match s.phase i with
    | .delivering round => some (s.move i (.refused round))
    | _ => none
  | .settle i, s =>
    match s.phase i with
    | .accepted round => some (s.settle i round)
    | .refused round => some (s.recordFailure i round)
    | _ => none
  | .crash i, s => some (s.move i .idle)
  | .sweep picked, s =>
    some { s with rows := s.rows.filter fun row => !(row.id ∈ picked && !s.unpassed row) }

/-- A cluster that is about to assign an identifier, with the events and the cursor it was
restored with and numbers above theirs. -/
structure Begins (s : World ι) : Prop where
  xmax_eq : s.xmax = s.nextXid
  running_eq : ∀ xid, s.running xid = none
  phase_eq : ∀ i, s.phase i = .idle
  rows_id : ∀ row ∈ s.rows, row.id < s.nextId
  rows_inj : ∀ row ∈ s.rows, ∀ row' ∈ s.rows, row.id = row'.id → row = row'

end World

end Flotestro.Outbox
