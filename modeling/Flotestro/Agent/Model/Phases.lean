import Mathlib.Data.List.Basic

/-!
# The phases of the attempts

The table a cancel is answered from: the phase of every attempt this process was handed, and the attempts
that were refused before they were handed over.  An executor enters its attempt, asks for a cancel before
each step that would touch the host, and moves the phase; each of these is one critical section, and a
cancel may fall between any two.
-/

set_option autoImplicit false

namespace Flotestro.Agent

/-- SOURCE: inflight.go:266-290 -/
inductive Phase where
  | accepted | awaitingLock | started | mutating | done | notDelivered | inFlightBeforeRestart
  deriving DecidableEq

/-- SOURCE: inflight.go:292-304 -/
structure TaskPhase where
  idempotencyKey : Nat
  phase : Phase
  /-- whether the function that ends the context of the task is at hand -/
  stop : Bool
  canceled : Bool
  resultHash : Option Nat

inductive Outcome where
  | notStarted | alreadyDone | interrupted | notInterruptible

/-- What a cancel is to call: the end of the task's context, or the interruption an action has
registered. -/
inductive Interrupt where
  | context
  | action

structure CancelAnswer where
  outcome : Outcome
  phase : Phase
  resultHash : Option Nat
  interrupt : Option Interrupt

/-- SOURCE: inflight.go:306-314 -/
structure TaskPhases where
  entries : Nat → Option TaskPhase
  order : List Nat
  refused : List Nat

/-- SOURCE: inflight.go:318 -/
def maxRememberedPhases : Nat := 512

namespace TaskPhases

variable (p : TaskPhases)

/-- The entries of tasks that are over. -/
def droppable (taskID : Nat) : Bool :=
  match p.entries taskID with
  | none => true
  | some entry => entry.phase = .done || entry.phase = .inFlightBeforeRestart

def setEntry (taskID : Nat) (entry : Option TaskPhase) : TaskPhases :=
  { p with entries := fun other => if other = taskID then entry else p.entries other }

/-- The rounds of the loop; the fuel is never short, since a round makes the order shorter. -/
def trimLoop : Nat → TaskPhases → TaskPhases
  | 0, p => p
  | fuel + 1, p =>
    if maxRememberedPhases < p.order.length then
      match p.order.find? p.droppable with
      | some taskID => trimLoop fuel { p.setEntry taskID none with order := p.order.eraseP p.droppable }
      | none => p
    else p

/-- SOURCE: inflight.go:446-463 -/
def trim : TaskPhases := trimLoop p.order.length p

/-- The table and whether a cancel came before the delivery.  SOURCE: inflight.go:326-338 -/
def enter (taskID idempotencyKey : Nat) : TaskPhases × Bool :=
  let refused := p.refused.contains taskID
  let entered := p.setEntry taskID (some ⟨idempotencyKey, .accepted, true, refused, none⟩)
  (trim { entered with order := p.order ++ [taskID], refused := p.refused.erase taskID }, refused)

/-- SOURCE: inflight.go:357-366 -/
def move (taskID : Nat) (phase : Phase) : TaskPhases :=
  match p.entries taskID with
  | some entry => p.setEntry taskID (some { entry with phase := phase })
  | none => p

/-- SOURCE: inflight.go:371-395 -/
def finish (taskID : Nat) (hash : Option Nat) : TaskPhases :=
  match p.entries taskID with
  | some entry =>
    p.setEntry taskID (some { entry with phase := .done, stop := false, resultHash := hash })
  | none =>
    -- the fresh entry has no phase while the table is trimmed: like `accepted`, none that is dropped
    let fresh := p.setEntry taskID (some ⟨0, .accepted, false, false, none⟩)
    let kept := trim { fresh with order := p.order ++ [taskID] }
    kept.setEntry taskID (some ⟨0, .done, false, false, hash⟩)

/-- SOURCE: inflight.go:399-407 -/
def canceledBeforeStart (taskID : Nat) : Bool :=
  match p.entries taskID with
  | some entry => entry.canceled
  | none => false

/-- The table after a cancel and the answer to it; `registered` says whether the action has an
interruption.  SOURCE: inflight.go:410-443 -/
def answer (taskID : Nat) (registered : Bool) : TaskPhases × CancelAnswer :=
  match p.entries taskID with
  | none =>
    let refused := p.refused.insert taskID
    ({ p with refused := if maxRememberedPhases < refused.length then [taskID] else refused },
      ⟨.notStarted, .notDelivered, none, none⟩)
  | some entry =>
    match entry.phase with
    | .done => (p, ⟨.alreadyDone, .done, entry.resultHash, none⟩)
    | .accepted | .awaitingLock =>
      (p.setEntry taskID (some { entry with canceled := true }),
        ⟨.notStarted, entry.phase, none, if entry.stop then some .context else none⟩)
    | .started =>
      if registered then (p, ⟨.interrupted, entry.phase, none, some .action⟩)
      else (p, ⟨.notInterruptible, entry.phase, none, none⟩)
    | .mutating | .notDelivered | .inFlightBeforeRestart =>
      (p, ⟨.notInterruptible, entry.phase, none, none⟩)

/-- The critical sections of an attempt. -/
inductive Call where
  | enter (idempotencyKey : Nat)
  | move (phase : Phase)
  | finish (hash : Option Nat)
  | cancel (registered : Bool)

/-- The table after a critical section of the attempt. -/
def call (taskID : Nat) : Call → TaskPhases
  | .enter idempotencyKey => (p.enter taskID idempotencyKey).1
  | .move phase => p.move taskID phase
  | .finish hash => p.finish taskID hash
  | .cancel registered => (p.answer taskID registered).1

end TaskPhases

/-- Where the execution of the attempt is, between the critical sections. -/
inductive Stage where
  | undelivered | entered | waiting | admitted | checked | moved | performing | ended | finished
  deriving DecidableEq

structure Attempt where
  phases : TaskPhases
  stage : Stage

/-- The steps of an execution, a cancel of its attempt, and what other attempts and the cancels
of them do to the table.  `leave` is every way out of
`Execute` that does not ask for a cancel: a stored result, a marker, a failed check, a refused or ended
wait, a marker that was not written, a panic. -/
inductive CancelEvent where
  | other (id : Nat) (call : TaskPhases.Call)
  | cancel (registered : Bool)
  | enter (idempotencyKey : Nat)
  | check (admits : Bool)
  | await
  | admitted
  | recheck
  | start (mutating : Bool)
  | perform
  | performed
  | leave
  | finish (hash : Option Nat)

namespace Attempt

def cancelOutcome (taskID : Nat) (registered : Bool) (s : Attempt) : Outcome :=
  (s.phases.answer taskID registered).2.outcome

/-- SOURCE: tasks.go:213-290, 456-546, 309-328 -/
def step (taskID : Nat) : CancelEvent → Attempt → Option Attempt
  | .other id call, s => if id = taskID then none else some { s with phases := s.phases.call id call }
  | .cancel registered, s => some { s with phases := (s.phases.answer taskID registered).1 }
  | .enter idempotencyKey, s =>
    if s.stage = .undelivered then
      let entered := s.phases.enter taskID idempotencyKey
      some ⟨entered.1, if entered.2 then .ended else .entered⟩
    else none
  | .check admits, s =>
    if s.stage = .entered then
      if s.phases.canceledBeforeStart taskID then some { s with stage := .ended }
      -- without a function that admits, the first check is the last one
      else some { s with stage := if admits then .waiting else .checked }
    else none
  | .await, s =>
    if s.stage = .waiting then some { s with phases := s.phases.move taskID .awaitingLock } else none
  | .admitted, s => if s.stage = .waiting then some { s with stage := .admitted } else none
  | .recheck, s =>
    if s.stage = .admitted then
      some { s with stage := if s.phases.canceledBeforeStart taskID then .ended else .checked }
    else none
  | .start mutating, s =>
    if s.stage = .checked then
      some ⟨s.phases.move taskID (if mutating then .mutating else .started), .moved⟩
    else none
  | .perform, s => if s.stage = .moved then some { s with stage := .performing } else none
  | .performed, s => if s.stage = .performing then some { s with stage := .ended } else none
  | .leave, s =>
    match s.stage with
    | .entered | .waiting | .admitted | .checked | .moved | .performing => some { s with stage := .ended }
    | .undelivered | .ended | .finished => none
  | .finish hash, s =>
    if s.stage = .ended then some ⟨s.phases.finish taskID hash, .finished⟩ else none

end Attempt

end Flotestro.Agent
