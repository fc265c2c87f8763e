import Flotestro.HostLocks.Model.Contracts
import Flotestro.Library.Slice
import Flotestro.Library.Maps

/-!
# The locks on the resources of a host

A task takes all its claims in one step under the mutex or waits; a release gives the claims of
one task back.  What a task that waits reports is left out: it reads the table only.
-/

set_option autoImplicit false

namespace Flotestro.HostLocks

open Library

/-- SOURCE: locks.go:35-40 -/
structure Holder where
  task : Bytes
  operation : Bytes
  mode : ClaimMode
  weight : Nat

/-- SOURCE: locks.go:26-32 -/
structure Locks where
  held : AList fun _ : ResourceClass => List Holder

/-- The holders of a class, none when the table has no entry. -/
def Locks.holders (l : Locks) (cls : ResourceClass) : List Holder := (l.held.lookup cls).getD []

/-- SOURCE: locks.go:42-44 -/
def newLocks : Locks := ⟨∅⟩

/-- SOURCE: locks.go:97-102 -/
def claimWeight (claim : ResourceClaim) : Nat := if claim.weight < 1 then 1 else claim.weight

def carried (holders : List Holder) : Nat := (holders.map Holder.weight).sum

/-- A class somebody holds, with its first holder.  The table has no order: which one
is named is open, whether there is one is not.  SOURCE: locks.go:112-116 -/
def Locks.anyHolder (l : Locks) : Option (ResourceClass × Holder) :=
  l.held.entries.findSome? fun e => e.2.head?.map fun x => (e.1, x)

/-- What keeps one claim from being taken among the holders of its class.
SOURCE: locks.go:118-147 -/
def classCollision (claim : ResourceClaim) : List Holder → Option (ResourceClass × Holder)
  | [] => none
  | first :: rest =>
    if claim.mode ≠ .shared then some (claim.cls, first)
    else
      match (first :: rest).find? fun x => x.mode ≠ .shared with
      | some x => some (claim.cls, x)
      | none =>
        if sharedCapacity claim.cls = 0 then none
        else if carried (first :: rest) + claimWeight claim > sharedCapacity claim.cls then
          some (claim.cls, first)
        else none

/-- What keeps one claim of a set from being taken.  SOURCE: locks.go:110-148 -/
def Locks.claimCollision (l : Locks) (claim : ResourceClaim) : Option (ResourceClass × Holder) :=
  (if claim.cls = .host then l.anyHolder else none).or
    (classCollision claim (l.holders claim.cls))

/-- Whether any claim of the set cannot be taken now, and by whom.
SOURCE: locks.go:106-150 -/
def Locks.collision (l : Locks) (claims : List ResourceClaim) : Option (ResourceClass × Holder) :=
  match l.holders .host with
  | first :: _ => some (.host, first)
  | [] => claims.findSome? l.claimCollision

def holderOf (task operation : Bytes) (claim : ResourceClaim) : Holder :=
  ⟨task, operation, claim.mode, claimWeight claim⟩

/-- SOURCE: locks.go:66-69 -/
def Locks.take (l : Locks) (task operation : Bytes) (claims : List ResourceClaim) : Locks :=
  claims.foldl (fun l claim =>
    ⟨l.held.insert claim.cls (l.holders claim.cls ++ [holderOf task operation claim])⟩) l

/-- One pass of an acquisition: the claims are taken, or the one who blocks them is
known and the task waits.  SOURCE: locks.go:58-75 -/
def Locks.acquire (l : Locks) (task operation : Bytes) (claims : List ResourceClaim) :
    Except (ResourceClass × Holder) Locks :=
  if claims = [] then .ok l
  else
    match l.collision claims with
    | some who => .error who
    | none => .ok (l.take task operation claims)

/-- One class given back: the holders are filtered in their own array.
SOURCE: locks.go:157-167 -/
def Locks.releaseClass (task : Bytes) (l : Locks) (cls : ResourceClass) : Locks :=
  let kept := filterInPlace (fun x : Holder => x.task ≠ task) (l.holders cls)
  if kept = [] then ⟨l.held.erase cls⟩ else ⟨l.held.insert cls kept⟩

/-- SOURCE: locks.go:154-173 -/
def Locks.release (l : Locks) (task : Bytes) (claims : List ResourceClaim) : Locks :=
  (claims.map ResourceClaim.cls).foldl (Locks.releaseClass task) l

/-- A task that took its claims and has not given them back. -/
structure Running where
  task : Bytes
  operation : Bytes
  claims : List ResourceClaim
deriving DecidableEq

/-- The locks beside the tasks whose release is still to come. -/
structure Host where
  locks : Locks
  running : List Running

/-- The steps of tasks with distinct identifiers: a task that holds nothing takes the
claims of its operation, a running task gives its claims back. -/
inductive Step : Host → Host → Prop
  | acquire {h : Host} {locks : Locks} (task operation : Bytes)
      (decoded : Option (ActionType × Option Bytes))
      (distinct : ∀ r ∈ h.running, r.task ≠ task)
      (taken : h.locks.acquire task operation (taskClaims decoded) = .ok locks) :
      Step h ⟨locks, ⟨task, operation, taskClaims decoded⟩ :: h.running⟩
  | release {h : Host} (r : Running) (running : r ∈ h.running) :
      Step h ⟨h.locks.release r.task r.claims, h.running.erase r⟩

/-- The hosts that an interleaving of acquisitions and releases leads to. -/
inductive Reachable : Host → Prop
  | start : Reachable ⟨newLocks, []⟩
  | step {h h' : Host} (reached : Reachable h) (step : Step h h') : Reachable h'

end Flotestro.HostLocks
