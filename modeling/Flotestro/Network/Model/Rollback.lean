import Flotestro.Library.Runs

/-!
# The rollback of a network change

One rollback plan on a NetworkManager host: its file, the transient timer and the process it starts,
and the calls of `confirmChange` and `rollbackNow` in the helper.  Every file operation, every `nmcli`
command and every `systemctl stop` is one event.  A call holds the guard of the network, and one that
comes meanwhile is refused.  The helper and the process see each other only through the file and through
the stop of the unit.
-/

set_option autoImplicit false

namespace Flotestro.Network

open Library

inductive Timer where
  | armed | fired | stopped
  deriving DecidableEq

/-- The process of the unit.  SOURCE: network.go:693-733 -/
inductive Process where
  | idle | started
  /-- The plan is in hand, and so many of its steps are still to be run. -/
  | running (left : Nat)
  | ended
  deriving DecidableEq

/-- How far a `confirmChange` has come.  SOURCE: network.go:392-425 -/
inductive Confirm where
  | called | loaded | timerStopped | serviceStopped | removed
  deriving DecidableEq

/-- How far a `rollbackNow` has come.  SOURCE: network.go:427-458 -/
inductive Rollback where
  | called
  | running (left : Nat)
  | timerStopped | serviceStopped
  deriving DecidableEq

inductive Call where
  | confirm (at_ : Confirm)
  | rollback (at_ : Rollback)
  deriving DecidableEq

/-- `steps` is the number of steps `RollbackSteps` gives for the plan, if it accepts it; `held` is
the call that holds the guard; `confirmed` tells that one has answered that the change is confirmed, and
`ran` counts the steps of the plan that were run, by anybody. -/
structure World where
  steps : Option Nat
  plan : Bool
  timer : Timer
  process : Process
  held : Option Call
  confirmed : Bool
  ran : Nat

inductive Event where
  | fire
  | process
  | confirmChange
  | rollbackNow
  | proceed
  deriving DecidableEq

namespace World

/-- A plan that was saved, with its timer armed.  SOURCE: rollback.go:112-132 -/
def saved (steps : Option Nat) : World where
  steps := steps
  plan := true
  timer := .armed
  process := .idle
  held := none
  confirmed := false
  ran := 0

/-- `systemctl stop` of the timer.  SOURCE: network.go:493-500 -/
def stopTimer (w : World) : World :=
  if w.timer = .armed then { w with timer := .stopped } else w

/-- `systemctl stop` of the service, between two steps of the process. -/
def stopService (w : World) : World :=
  if w.process = .idle then w else { w with process := .ended }

/-- The next step of the process; a plan without steps is set aside.
SOURCE: network.go:693-733 -/
def processStep (w : World) : Option World :=
  match w.process with
  | .idle | .ended => none
  | .started =>
    if w.plan then
      match w.steps with
      | none => some { w with plan := false, process := .ended }
      | some k => some { w with process := .running k }
    else some { w with process := .ended }
  | .running (k + 1) => some { w with process := .running k, ran := w.ran + 1 }
  | .running 0 => some { w with plan := false, process := .ended }

/-- A call takes the guard, or is refused.  SOURCE: guards.go:58-80, network.go:88-95 -/
def hold (w : World) (call : Call) : World :=
  match w.held with
  | some _ => w
  | none => { w with held := some call }

/-- SOURCE: network.go:392-425 -/
def confirmStep (w : World) : Confirm → World
  | .called => { w with held := if w.plan then some (.confirm .loaded) else none }
  | .loaded => { w.stopTimer with held := some (.confirm .timerStopped) }
  | .timerStopped => { w.stopService with held := some (.confirm .serviceStopped) }
  | .serviceStopped => { w with plan := false, held := some (.confirm .removed) }
  | .removed => { w with held := none, confirmed := true }

/-- SOURCE: network.go:427-458 -/
def rollbackStep (w : World) : Rollback → World
  | .called =>
    match w.plan, w.steps with
    | true, some k => { w with held := some (.rollback (.running k)) }
    | _, _ => { w with held := none }
  | .running (k + 1) => { w with held := some (.rollback (.running k)), ran := w.ran + 1 }
  | .running 0 => { w.stopTimer with held := some (.rollback .timerStopped) }
  | .timerStopped => { w.stopService with held := some (.rollback .serviceStopped) }
  | .serviceStopped => { w with plan := false, held := none }

def step : Event → World → Option World
  | .fire, w =>
    if w.timer = .armed then some { w with timer := .fired, process := .started } else none
  | .process, w => w.processStep
  | .confirmChange, w => some (w.hold (.confirm .called))
  | .rollbackNow, w => some (w.hold (.rollback .called))
  | .proceed, w =>
    match w.held with
    | some (.confirm c) => some (w.confirmStep c)
    | some (.rollback r) => some (w.rollbackStep r)
    | none => none

end World

end Flotestro.Network
