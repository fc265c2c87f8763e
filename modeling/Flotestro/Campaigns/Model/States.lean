import Mathlib.Data.List.Basic

/-!
# The states of a campaign and of its targets

A campaign is rolled out over hosts in waves; wave zero is the canary.  This module has the states
of a campaign and of one target, the transitions the store accepts, and what the orchestrator reads
off a list of targets.  Texts for the operator, the records of the steps and the audit trail are
left out: nothing below reads them.
-/

set_option autoImplicit false

namespace Flotestro.Campaigns

/-- SOURCE: model.go:20-52 -/
inductive State where
  | planning
  | planned
  | awaitingApproval
  | canary
  | manualGate
  | running
  | pausing
  | paused
  | canceling
  | completed
  | completedWithIssues
  | failed
  | planFailed
  | expired
  | canceled
deriving DecidableEq

namespace State

/-- SOURCE: model.go:59-68 -/
def terminal : State → Bool
  | .completed | .completedWithIssues | .failed | .planFailed | .expired | .canceled => true
  | _ => false

/-- SOURCE: model.go:70-74 -/
def launching (s : State) : Bool :=
  s = .planning || s = .planned || s = .canary || s = .running

/-- SOURCE: states.go:35-38 -/
def pausable : List State := [.planned, .canary, .manualGate, .running]

/-- SOURCE: model.go:76-108 -/
def mayBecome (s next : State) : Bool :=
  if s.terminal || s = next then false
  else
    match next with
    | .canary | .running => s = .planned || s = .canary
    | .manualGate => s = .planned || s = .canary || s = .running
    | .pausing => pausable.contains s
    | .paused => pausable.contains s || s = .pausing
    | .expired => s = .planned || s = .awaitingApproval
    | .planFailed => s = .planning
    | .completed | .completedWithIssues | .failed =>
      s = .planning || s = .planned || s = .canary || s = .running
    | .canceled => s = .canceling
    | _ => false

/-- The campaign is over or drains after a cancel: no session brings it back. -/
def closed (s : State) : Bool := s.terminal || s = .canceling

end State

/-- SOURCE: model.go:110-151 -/
inductive TargetState where
  | pending
  | planning
  | awaitingBudget
  | ineligible
  | excluded
  | queuedOffline
  | dispatched
  | awaitingLock
  | running
  | rebooting
  | verifying
  | succeeded
  | noChange
  | failed
  | unknown
  | skipped
  | canceled
deriving DecidableEq

namespace TargetState

/-- SOURCE: model.go:153-156 -/
def waiting (t : TargetState) : Bool := t = .pending || t = .awaitingBudget || t = .queuedOffline

/-- SOURCE: model.go:158-167, states.go:40-45 -/
def underWay : TargetState → Bool
  | .dispatched | .awaitingLock | .running | .rebooting | .verifying => true
  | _ => false

/-- SOURCE: model.go:225-234 -/
def finished : TargetState → Bool
  | .succeeded | .noChange | .failed | .unknown | .skipped | .canceled | .ineligible
  | .excluded => true
  | _ => false

/-- SOURCE: states.go:47-51 -/
def unstarted (t : TargetState) : Bool :=
  t = .pending || t = .planning || t = .awaitingBudget || t = .queuedOffline

/-- The host ended with the desired state on it.  SOURCE: model.go:169-173 -/
def endedWell (t : TargetState) : Bool := t = .succeeded || t = .noChange

/-- SOURCE: model.go:192-223 -/
def mayBecome (t next : TargetState) : Bool :=
  if t.finished then false
  else if t = next then true
  else if next.finished then true
  else
    match next with
    | .pending => t = .awaitingBudget || t = .queuedOffline || t = .planning
    | .awaitingBudget | .queuedOffline | .planning => t.waiting || t = .planning
    | .dispatched => t.waiting || t = .awaitingLock || t = .running
    | .awaitingLock | .running =>
      t.waiting || t = .dispatched || t = .awaitingLock || t = .running
    | .rebooting => t = .dispatched || t = .awaitingLock || t = .running
    | .verifying => t = .dispatched || t = .awaitingLock || t = .running || t = .rebooting
    | _ => false

end TargetState

/-- The codes the orchestrator compares, and any other by its text.
SOURCE: model.go:742-763, model.go:866-875 -/
inductive ErrorCode where
  | none
  | connectivityLost
  | outcomeUnknown
  | containerNotFound
  | cancelAckTimeout
  | skippedByOperator
  | rebootWindowClosed
  | other (text : String)
deriving DecidableEq

/-- SOURCE: store.go:329-333 -/
def waveNone : Int := -1

/-- A row of the campaign's targets.  `planJob` says that the row names a planning task;
the other tasks of the host are read where the pass reads them.  SOURCE: model.go:682-720 -/
structure Target where
  wave : Int
  state : TargetState
  errorCode : ErrorCode
  planJob : Bool
  revision : Nat

namespace Target

/-- SOURCE: model.go:175-181 -/
def participates (t : Target) : Bool := t.wave ≠ waveNone

/-- SOURCE: model.go:183-190 -/
def holdsWave (t : Target) : Bool :=
  if t.state.finished then false else t.state ≠ .queuedOffline || t.wave = 0

/-- SOURCE: model.go:765-769 -/
def connectivityLost (t : Target) : Bool :=
  t.state = .unknown && t.errorCode = .connectivityLost

/-- SOURCE: model.go:881-885 -/
def rebootWindowClosed (t : Target) : Bool :=
  t.state = .failed && t.errorCode = .rebootWindowClosed

end Target

/-- SOURCE: model.go:771-789 -/
structure Tally where
  finished : Nat
  succeeded : Nat
  failed : Nat
  lost : Nat

variable (targets : List Target)

/-- SOURCE: model.go:791-821 -/
def tallyTargets : Tally :=
  let counted := targets.filter Target.participates
  { finished := counted.countP fun t => t.state.finished
    succeeded := counted.countP fun t => t.state.endedWell
    failed := counted.countP fun t => t.state = .failed || t.state = .unknown
    lost := counted.countP Target.connectivityLost }

/-- SOURCE: model.go:823-834 -/
def settleCampaignState (counts : Tally) : State :=
  if counts.failed > 0 ∧ counts.succeeded = 0 then .failed
  else if counts.failed > 0 then .completedWithIssues
  else .completed

/-- SOURCE: model.go:836-845 -/
def cancelSettled : Bool := targets.all fun t => !t.state.underWay

/-- SOURCE: model.go:847-854 -/
def pauseState : State :=
  if cancelSettled targets then .paused else .pausing

/-- SOURCE: model.go:895-910 -/
def thresholdExceeded (failed finished percentThreshold absoluteThreshold : Nat) : Bool :=
  (absoluteThreshold > 0 && failed ≥ absoluteThreshold) ||
    (percentThreshold > 0 && finished > 0 && failed * 100 / finished ≥ percentThreshold)

/-- SOURCE: orchestrator.go:863-873 -/
def activeTargets : Nat :=
  targets.countP fun t => !t.state.finished && !t.state.waiting

/-- SOURCE: orchestrator.go:875-882 -/
def allFinished : Bool := targets.all fun t => t.state.finished

/-- SOURCE: orchestrator.go:884-897 -/
def currentWave : Int :=
  targets.foldl
    (fun wave t => if !t.holdsWave then wave else if wave < 0 ∨ t.wave < wave then t.wave else wave)
    (-1)

/-- SOURCE: orchestrator.go:899-911 -/
def waveFinished (wave : Int) : Bool :=
  wave < 0 || targets.all fun t => !(t.wave = wave && t.holdsWave)

/-- SOURCE: orchestrator.go:996-1017 -/
def canaryExercisedNothing (canarySize : Nat) (targets : List Target) : Bool :=
  let canary := targets.filter fun t => t.wave = 0
  0 < canarySize && canary.all (fun t => !t.state.endedWell) &&
    canary.any fun t => t.state = .skipped && t.errorCode = .containerNotFound

/-- The targets that carry a task of the change. -/
def underWayTargets : Nat := targets.countP fun t => t.state.underWay

end Flotestro.Campaigns
