import Flotestro.Leases.Model.Leases

/-!
# Fenced statements of the evaluator

The lease of the evaluator and the rows of `alerts`.  A statement reads the lease and its row from the
snapshot at its start; it takes effect later, when it has the lock of the row, and then asks only that
the row is still there.  What it writes is what it read of the lease at its start.
-/

set_option autoImplicit false

namespace Flotestro.Alerts

open Library Flotestro.Leases

variable {ι : Type}

inductive AlertState where
  | pending | firing | noData | resolved
  deriving DecidableEq

/-- What the fence reads and writes of a row. -/
structure Alert where
  state : AlertState
  fencingToken : Option Int

/-- The statements under the fence.
SOURCE: evaluator.go:342-360, 440-495, 622-685 -/
inductive Kind where
  | restart | fire | refresh | resolve | discard | noData
  | resume (state : AlertState)

/-- The guard of a statement on the state of its row. -/
def Kind.allows : Kind → AlertState → Bool
  | .restart, s | .fire, s => s = .pending
  | .refresh, _ => true
  | .resolve, s => s = .firing ∨ s = .noData
  | .discard, s => s = .pending ∨ s = .noData
  | .noData, s => s = .pending ∨ s = .firing
  | .resume _, s => s = .noData

/-- The row a statement leaves, or none when it deletes the row. -/
def Kind.apply (kind : Kind) (token : Int) (row : Alert) : Option Alert :=
  match kind with
  | .restart | .refresh => some { row with fencingToken := some token }
  | .fire => some ⟨.firing, some token⟩
  | .resolve => some ⟨.resolved, some token⟩
  | .noData => some ⟨.noData, some token⟩
  | .resume state => some ⟨state, some token⟩
  | .discard => none

inductive Target where
  | write (kind : Kind) (id : Nat)
  | insert (state : AlertState)

/-- A statement that passed the fence and waits for its row, with the token of its
`fence_lease`. -/
structure Statement where
  target : Target
  token : Int

/-- Rows stand under the order of their insertion; a deleted row is `none`.  The log has
each write that landed, with the episode and the token, oldest first. -/
structure World (ι : Type) where
  now : Int
  lease : Row ι
  alerts : List (Option Alert)
  statements : List (Option Statement)
  log : List (Nat × Int)

inductive Event (ι : Type) where
  | tick (by_ : Nat)
  /-- A statement over the lease that began at the moment commits. -/
  | lease (request : Request ι) (began : Int)
  | start (lease : Lease ι) (target : Target)
  /-- A statement has its row and commits; an insert may meet a row of its rule and host. -/
  | land (n : Nat) (conflict : Bool)
  /-- A statement that waits for its row is ended. -/
  | abort (n : Nat)

/-- SOURCE: evaluator.go:281-283 -/
def fencePredicate (row : Alert) (token : Int) : Bool :=
  match row.fencingToken with
  | none => true
  | some t => t ≤ token

namespace World

variable [DecidableEq ι]

/-- SOURCE: evaluator.go:287-291 -/
def fenceLease (w : World ι) (lease : Lease ι) : Bool :=
  w.lease.carries lease ∧ w.lease.untilAfter w.now

/-- The conditions of a statement, over its snapshot. -/
def passes (w : World ι) (lease : Lease ι) (target : Target) : Bool :=
  w.fenceLease lease &&
    match target with
    | .insert _ => true
    | .write kind id =>
      match w.alerts[id]? with
      | some (some row) => kind.allows row.state && fencePredicate row lease.token
      | _ => false

def land (w : World ι) (s : Statement) (conflict : Bool) : World ι :=
  match s.target with
  | .write kind id =>
    match w.alerts[id]? with
    | some (some row) =>
      { w with alerts := w.alerts.set id (kind.apply s.token row), log := w.log ++ [(id, s.token)] }
    | _ => w
  | .insert state =>
    if conflict then w
    else { w with alerts := w.alerts ++ [some ⟨state, some s.token⟩],
                  log := w.log ++ [(w.alerts.length, s.token)] }

def step : Event ι → World ι → Option (World ι)
  | .tick d, w => some { w with now := w.now + d }
  | .lease request began, w =>
    if began ≤ w.now then
      (request.effect began w.lease).map fun row => { w with lease := row }
    else none
  | .start lease target, w =>
    some { w with statements := w.statements ++
      [if w.passes lease target then some ⟨target, lease.token⟩ else none] }
  | .land n conflict, w =>
    (w.statements[n]?.join).map fun s =>
      { w.land s conflict with statements := w.statements.set n none }
  | .abort n, w =>
    (w.statements[n]?.join).map fun _ => { w with statements := w.statements.set n none }

end World

/-- The token on a row does not fall, and does not become null. -/
def tokenLe : Option Int → Option Int → Prop
  | none, _ => True
  | some _, none => False
  | some a, some b => a ≤ b

namespace World

/-- The rows of one state and a later one: no deleted row is back, and no token has
fallen. -/
structure Rises (w w' : World ι) : Prop where
  length : w.alerts.length ≤ w'.alerts.length
  rows : ∀ (id : Nat) (row' : Alert), id < w.alerts.length → w'.alerts[id]? = some (some row') →
    ∃ row, w.alerts[id]? = some (some row) ∧ tokenLe row.fencingToken row'.fencingToken

/-- No write landed on an episode after one under a larger token. -/
def InOrder (log : List (Nat × Int)) : Prop :=
  log.Pairwise fun a b => a.1 = b.1 → a.2 ≤ b.2

end World

/-! ## The start of a window

The readings of an episode are walked in order, and the start of the last run without a hole and
without a reading that broke it is kept. -/

variable {ρ : Type}

/-- A reading and its moment in nanoseconds.  SOURCE: monitoring.go:94-119 -/
structure Sample (ρ : Type) where
  moment : Int
  reading : ρ

def maxDuration : Int := 9223372036854775807

/-- `Time.Sub`, which stops at the ends of 64 bits. -/
def timeSub (t u : Int) : Int := max (-9223372036854775808) (min maxDuration (t - u))

/-- Without a verdict every reading holds. -/
def judged (holds : Option (Sample ρ → Bool)) (sample : Sample ρ) : Bool :=
  holds.all fun verdict => verdict sample

structure Walk where
  since : Int
  last : Int
  broke : Bool

/-- One round of the loop.  SOURCE: evaluator.go:537-555 -/
def Walk.next (started gap : Int) (holds : Option (Sample ρ → Bool)) (w : Walk) (sample : Sample ρ) : Walk :=
  if sample.moment < started then w
  else
    { since := if timeSub sample.moment w.last > gap ∨ w.broke = true then sample.moment else w.since
      last := sample.moment
      broke := !judged holds sample }

/-- What is made of the walk.  SOURCE: evaluator.go:556-559 -/
def Walk.result (now gap : Int) (w : Walk) : Int :=
  if w.broke = true ∨ timeSub now w.last > gap then now else w.since

/-- SOURCE: evaluator.go:533-560 -/
def continuousSince (started : Int) (samples : List (Sample ρ)) (now gap : Int)
    (holds : Option (Sample ρ → Bool)) : Int :=
  (samples.foldl (Walk.next started gap holds) ⟨started, started, false⟩).result now gap

end Flotestro.Alerts
