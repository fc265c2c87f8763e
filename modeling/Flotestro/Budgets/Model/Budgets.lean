import Mathlib.Data.List.Sort
import Mathlib.Data.List.Dedup
import Flotestro.Library.Bytes
import Flotestro.Library.Runs

/-!
# Fleet budgets

The tables of the budgets and the transactions over them.  A transaction reads `now()` as the moment
it began, and what it does to the tables takes effect when it commits; the lock on the capacity rows
keeps two grants of one key from overlapping.
-/

set_option autoImplicit false

namespace Flotestro.Budgets

open Library

/-- Moments and durations are counted in microseconds. -/
def seconds (n : Int) : Int := n * 1000000

/-- SOURCE: store.go:19-28 -/
def defaultLease : Int := seconds 120
def waiterAge : Int := seconds 30

/-- SOURCE: budgets.go:20-43 -/
inductive Class where
  | incident | interactive | maintenance | background

def Class.promotionAge : Class → Int
  | .incident => 0
  | .interactive => seconds 15
  | .maintenance => seconds 120
  | .background => seconds 300

structure Need where
  key : Bytes
  weight : Int

/-- A row of `budget_leases`.  SOURCE: 0044_budgets.sql:22-33, 0092_campaign_revisions.sql -/
structure Lease where
  key : Bytes
  owner : Bytes
  claimant : Bytes
  weight : Int
  leaseUntil : Int
  fencingToken : Int

/-- A row of `budget_waiters`.  SOURCE: 0044_budgets.sql:45-52 -/
structure Waiter where
  key : Bytes
  claimant : Bytes
  cls : Class
  since : Int
  seenAt : Int

structure Tables where
  leases : List Lease
  waiters : List Waiter

def colon : UInt8 := 58
def star : UInt8 := 42

/-- SOURCE: budgets.go:164-183 -/
def pattern (key : Bytes) : Bytes :=
  match key.splitOn colon with
  | [scope, _, family] => scope ++ [colon, star, colon] ++ family
  | _ => []

/-- The capacity rows the needs ask for. -/
def wanted (needs : List Need) : List Bytes :=
  needs.flatMap fun need =>
    if pattern need.key = [] then [need.key] else [need.key, pattern need.key]

variable (limits : Bytes → Option Int)

/-- The capacity of a key among the needs.  SOURCE: store.go:151-191 -/
def capacities (needs : List Need) (key : Bytes) : Option Int :=
  let source := fun k => if k ∈ wanted needs then limits k else none
  match source key with
  | some capacity => some capacity
  | none => source (pattern key)

def weightIf (p : Lease → Bool) (leases : List Lease) : Int :=
  (leases.map fun l => if p l then l.weight else 0).sum

variable (now : Int)

/-- The lease counts at the moment. -/
def Lease.alive (l : Lease) : Bool := now < l.leaseUntil

/-- SOURCE: store.go:198-209 -/
def used (key owner : Bytes) (leases : List Lease) : Int :=
  weightIf (fun l => l.key = key && l.alive now && l.owner ≠ owner) leases

def mine (key owner claimant : Bytes) (leases : List Lease) : Int :=
  weightIf (fun l => l.key = key && l.alive now && l.owner ≠ owner && l.claimant = claimant) leases

/-- SOURCE: store.go:238-250 -/
def claimants (key : Bytes) (db : Tables) : Nat :=
  (((db.leases.filter fun l => l.key = key && l.alive now).map Lease.claimant) ++
    ((db.waiters.filter fun w => w.key = key && now - waiterAge < w.seenAt).map
      Waiter.claimant)).dedup.length

/-- SOURCE: store.go:252-270 -/
def waitingTime (key claimant : Bytes) (db : Tables) : Int :=
  match db.waiters.find? fun w => w.key = key && w.claimant = claimant with
  | none => 0
  | some w => now - w.since

/-- The grant of one need is refused.  SOURCE: store.go:193-236 -/
def refuses (owner claimant : Bytes) (cls : Class) (need : Need) (capacity : Int)
    (db : Tables) : Bool :=
  let share := max (capacity / max (claimants now need.key db) 1) 1
  used now need.key owner db.leases + need.weight > capacity ||
    (mine now need.key owner claimant db.leases + need.weight > share &&
      waitingTime now need.key claimant db < cls.promotionAge)

/-- The needs that are granted, or the key that is refused.  SOURCE: store.go:75-101 -/
def judge (limits : Bytes → Option Int) (now : Int) (owner claimant : Bytes) (cls : Class)
    (needs : List Need) (db : Tables) : List Need → Except Bytes (List Need)
  | [] => .ok []
  | need :: rest =>
    match capacities limits needs need.key with
    | none => judge limits now owner claimant cls needs db rest
    | some capacity =>
      if refuses now owner claimant cls need capacity db then .error need.key
      else (judge limits now owner claimant cls needs db rest).map (need :: ·)

/-- SOURCE: store.go:272-283 -/
def recordWaiter (key claimant : Bytes) (cls : Class) (db : Tables) : Tables :=
  if db.waiters.any fun w => w.key = key && w.claimant = claimant then
    { db with
      waiters := db.waiters.map fun w =>
        if w.key = key && w.claimant = claimant then { w with seenAt := now, cls := cls } else w }
  else { db with waiters := db.waiters ++ [⟨key, claimant, cls, now, now⟩] }

/-- The row of a key and an owner is written anew.  SOURCE: store.go:285-301 -/
def recordLease (owner claimant : Bytes) (token : Int) (leases : List Lease)
    (need : Need) : List Lease :=
  leases.filter (fun l => !(l.key = need.key && l.owner = owner)) ++
    [⟨need.key, owner, claimant, need.weight, now + defaultLease, token⟩]

def keyLe : Bytes → Bytes → Bool
  | [], _ => true
  | _ :: _, [] => false
  | a :: as, b :: bs => a < b || (a == b && keyLe as bs)

/-- `none` is a transaction that fails; a weight that is not positive fails the check of
its column.  SOURCE: store.go:47-131 -/
def acquireFenced (owner claimant : Bytes) (cls : Class)
    (needs : List Need) (token : Int) (db : Tables) : Option Tables :=
  let ordered := needs.insertionSort fun a b => keyLe a.key b.key
  match judge limits now owner claimant cls needs db ordered with
  | .error key => some (recordWaiter now key claimant cls db)
  | .ok granted =>
    if granted.all fun need => 0 < need.weight then
      some
        { leases := granted.foldl (recordLease now owner claimant token) db.leases
          waiters := db.waiters.filter fun w =>
            !(w.claimant = claimant && (granted.map Need.key).contains w.key) }
    else none

/-- The leases that a renewal names and that were alive at its beginning run on. -/
def renewIf (p : Lease → Bool) (now : Int) (leases : List Lease) : List Lease :=
  leases.map fun l =>
    if p l && l.alive now then { l with leaseUntil := now + defaultLease } else l

inductive Request where
  | acquire (owner claimant : Bytes) (cls : Class) (needs : List Need) (token : Int)
  | renew (owners : List Bytes)
  | renewFenced (held : List (Bytes × Int))
  | release (owner : Bytes)
  | releaseFenced (owner : Bytes) (token : Int)
  | releaseClaimant (claimant : Bytes)
  | sweep

/-- The leases a renewal names.  SOURCE: store.go:303-330, store.go:347-398 -/
def Request.names : Request → Lease → Bool
  | .renew owners, l => owners.contains l.owner
  | .renewFenced held, l => held.contains (l.owner, l.fencingToken)
  | _, _ => false

/-- What a transaction that began at `now` does to the tables.
SOURCE: store.go:47-131, store.go:303-442, store.go:458-470 -/
def Request.effect (request : Request) (db : Tables) :
    Option Tables :=
  match request with
  | .acquire owner claimant cls needs token =>
    acquireFenced limits now owner claimant cls needs token db
  | .renew _ | .renewFenced _ => some { db with leases := renewIf request.names now db.leases }
  | .release owner => some { db with leases := db.leases.filter fun l => l.owner ≠ owner }
  | .releaseFenced owner token =>
    some
      { db with leases := db.leases.filter fun l => !(l.owner = owner && l.fencingToken = token) }
  | .releaseClaimant claimant =>
    some
      { leases := db.leases.filter fun l => l.claimant ≠ claimant
        waiters := db.waiters.filter fun w => w.claimant ≠ claimant }
  | .sweep =>
    some
      { leases := db.leases.filter fun l => !(l.leaseUntil < now - seconds 600)
        waiters := db.waiters.filter fun w => !(w.seenAt < now - seconds 600) }

structure Database where
  now : Int
  tables : Tables
  txs : Nat → Option (Request × Int)

inductive Event where
  | tick (d : Nat)
  | begin (n : Nat) (request : Request)
  | commit (n : Nat)
  | abort (n : Nat)

namespace Database

def setTx (s : Database) (n : Nat) (tx : Option (Request × Int)) : Database :=
  { s with txs := fun m => if m = n then tx else s.txs m }

/-- A transaction that fails leaves the tables as they are. -/
def commit (s : Database) (n : Nat) (request : Request)
    (began : Int) : Database :=
  match request.effect limits began s.tables with
  | none => s.setTx n none
  | some tables => { s with tables := tables }.setTx n none

/-- One event; a transaction takes effect when it commits. -/
def step : Event → Database → Option Database
  | .tick d, s => some { s with now := s.now + d }
  | .begin n request, s =>
    match s.txs n with
    | none => some (s.setTx n (some (request, s.now)))
    | some _ => none
  | .commit n, s =>
    match s.txs n with
    | none => none
    | some (request, began) => some (s.commit limits n request began)
  | .abort n, s => some (s.setTx n none)

end Database

end Flotestro.Budgets
