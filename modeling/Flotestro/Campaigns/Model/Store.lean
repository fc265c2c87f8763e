import Flotestro.Campaigns.Model.States
import Flotestro.Library.Interference

/-!
# The store of a campaign

The rows of one campaign, what the operators' requests do to them, and the statements a pass of the
orchestrator issues.  Every write of a pass is made against the revision the pass read, so a row
that another session moved meanwhile is left as that session wrote it.  The store keeps what is
written; one runner holds the campaign, so the claim tokens of the rows are its own.
-/

set_option autoImplicit false

namespace Flotestro.Campaigns

open Library

/-- SOURCE: internal/opspec/offline.go:8-27 -/
inductive OfflinePolicy where
  | requireOnline
  | skip
  | wait
  | replan
deriving DecidableEq

/-- SOURCE: model.go:236-243 -/
inductive RebootPolicy where
  | never
  | ifRequired
  | always

/-- What was ordered, and stays as it is: sizes, limits and policies, and what the
registry of operations says of the ordered one - a fleet remediation, a change the panel splits
from the order, a change that has a planner.  SOURCE: model.go:287-369 -/
structure Order where
  canarySize : Nat
  maxConcurrent : Nat
  failureThresholdPercent : Nat
  failureThresholdAbsolute : Nat
  connectivityLostAbsolute : Nat
  offlinePolicy : OfflinePolicy
  rebootPolicy : RebootPolicy
  healthChecks : Bool
  manualGate : Bool
  requiresApproval : Bool
  remediation : Bool
  panelPlanned : Bool
  planner : Bool

/-- The row of the campaign.  SOURCE: model.go:559-640 -/
structure Campaign where
  order : Order
  state : State
  /-- `GateAdvancedAt` is set. -/
  gateAdvanced : Bool
  /-- `StartedAt` is set. -/
  started : Bool
  revision : Nat

/-- The rows of one campaign, its targets in the order of their waves and positions. -/
structure Store where
  campaign : Campaign
  targets : List Target

namespace Store

def withState (s : Store) (next : State) : Store :=
  { s with campaign := { s.campaign with state := next, revision := s.campaign.revision + 1 } }

/-- SOURCE: store.go:445-467 -/
def pause (s : Store) : Store :=
  if State.pausable.contains s.campaign.state then s.withState (pauseState s.targets) else s

/-- SOURCE: store.go:469-487 -/
def resume (s : Store) : Store :=
  if s.campaign.state = .paused ∨ s.campaign.state = .pausing then s.withState .planned else s

/-- What a cancel does to one row: a host that has not started is canceled, and so is one
whose task was still queued in the panel; the row of a host that keeps its task notes the request.
SOURCE: store.go:511-570 -/
def cancelTarget (takenBack : Bool) (t : Target) : Target :=
  if t.state.unstarted then { t with state := .canceled, revision := t.revision + 1 }
  else if takenBack && (t.state = .dispatched || t.state = .awaitingLock || t.state = .running) then
    { t with
      state := .canceled
      errorCode := .other "canceled"
      revision := t.revision + 1 }
  else if t.state.underWay then { t with revision := t.revision + 1 }
  else t

/-- `takenBack` says whose task the cancel found in the panel's queue.
SOURCE: store.go:489-638 -/
def cancel (takenBack : Nat → Bool) (s : Store) : Store :=
  if s.campaign.state.terminal ∨ s.campaign.state = .canceling then s
  else
    let targets := s.targets.mapIdx fun i t => cancelTarget (takenBack i) t
    { s with targets := targets }.withState
      (if 0 < underWayTargets targets then .canceling else .canceled)

/-- SOURCE: store.go:1525-1581 -/
def skipTarget (i : Nat) (s : Store) : Store :=
  if s.campaign.state.terminal then s
  else
    { s with
      targets := s.targets.modify i fun t =>
        if t.state = .queuedOffline then
          { t with
            state := .skipped
            errorCode := .skippedByOperator
            revision := t.revision + 1 }
        else t }

/-- An operator lets the campaign through its gate.  SOURCE: store.go:663-680 -/
def advanceGate (s : Store) : Store :=
  if s.campaign.state = .manualGate then
    let advanced := s.withState .running
    { advanced with campaign := { advanced.campaign with gateAdvanced := true } }
  else s

/-- SOURCE: store.go:370-402 -/
def approve (s : Store) : Store :=
  if s.campaign.state = .awaitingApproval then s.withState .planned else s

/-- One transaction of a session other than the pass. -/
inductive Other : Store → Store → Prop where
  | pause (s : Store) : Other s s.pause
  | resume (s : Store) : Other s s.resume
  | cancel (takenBack : Nat → Bool) (s : Store) : Other s (s.cancel takenBack)
  | skipTarget (i : Nat) (s : Store) : Other s (s.skipTarget i)
  | advanceGate (s : Store) : Other s s.advanceGate
  | approve (s : Store) : Other s s.approve

end Store

/-- What a write of a state changes in a row. -/
def Target.settled (next : TargetState) (code : ErrorCode) (t : Target) : Target :=
  { t with state := next, errorCode := code }

/-- What the start of a task changes in a row; the task of a plan is named in it. -/
def Target.launched (next : TargetState) (t : Target) : Target :=
  { t with state := next, errorCode := .none, planJob := t.planJob || next = .planning }

/-- What a pass asks of the store.  A target or a campaign in a statement is the copy the
pass holds. -/
inductive Statement where
  /-- List the campaign among those to drive. -/
  | active
  /-- Read the row of the campaign. -/
  | campaign
  /-- Read the targets. -/
  | targets
  /-- Write a state of a target: `UpdateTarget`, `FollowTask`, the end of a host with its steps, or
  the start of a step that follows the change. -/
  | update (i : Nat) (target : Target) (next : TargetState) (code : ErrorCode)
  /-- Take the campaign's lock and read whether it may start a host. -/
  | lockForLaunch
  /-- Create a task of a host and start its step, in one transaction under the campaign's lock. -/
  | launch (i : Nat) (target : Target) (next : TargetState)
  /-- The call of `SetState`; the call itself writes nothing. -/
  | setState (campaign : Campaign) (next : State)
  /-- One attempt of `SetState`. -/
  | writeState (campaign : Campaign) (next : State)
  | finishPlanning (next : State)
  /-- Claim waiting targets of a wave, those that no other session has locked. -/
  | claimWave (wave : Int) (free : Nat → Bool) (limit : Nat)

namespace Statement

/-- The revision written is the answer to a write; `none` when the row had moved. -/
def Answer : Statement → Type
  | .active => Option Campaign
  | .campaign => Campaign
  | .targets => List Target
  | .update .. | .launch .. | .writeState .. => Option Nat
  | .setState .. => Unit
  | .lockForLaunch | .finishPlanning _ => Bool
  | .claimWave .. => List (Nat × Nat)

end Statement

namespace Store

/-- A row changed and given its next revision, against the revision and the state of a
copy.  SOURCE: store.go:1376-1421, store.go:1431-1466 -/
def writeTarget (s : Store) (i : Nat) (copy : Target) (change : Target → Target) :
    Option Nat × Store :=
  match s.targets[i]? with
  | none => (none, s)
  | some t =>
    if t.revision = copy.revision ∧ t.state = copy.state then
      (some (t.revision + 1),
        { s with targets := s.targets.set i { change t with revision := t.revision + 1 } })
    else (none, s)

/-- SOURCE: store.go:684-724 -/
def writeState (s : Store) (copy : Campaign) (next : State) : Option Nat × Store :=
  if s.campaign.revision = copy.revision then
    let moved := s.withState next
    (some (s.campaign.revision + 1),
      { moved with
        campaign :=
          { moved.campaign with
            started := s.campaign.started || next = .canary || next = .running } })
  else (none, s)

/-- The rows a claim takes: the first `limit` waiting targets of the wave that are free.
SOURCE: claims.go:144-151 -/
def claimable (s : Store) (wave : Int) (free : Nat → Bool) (limit : Nat) : List Nat :=
  ((List.range s.targets.length).filter fun i =>
    match s.targets[i]? with
    | none => false
    | some t =>
      decide (t.wave = wave) && (t.state = .pending || t.state = .awaitingBudget) && free i).take limit

/-- SOURCE: claims.go:136-174 -/
def claimWave (s : Store) (wave : Int) (free : Nat → Bool) (limit : Nat) :
    List (Nat × Nat) × Store :=
  let taken := s.claimable wave free limit
  let targets := s.targets.mapIdx fun i t =>
    if i ∈ taken then { t with revision := t.revision + 1 } else t
  (taken.filterMap fun i => (targets[i]?).map fun t => (i, t.revision), { s with targets := targets })

/-- SOURCE: states.go:29-33, store.go:763-777 -/
def driven (s : Store) : Bool :=
  !s.campaign.state.terminal && (s.campaign.state ≠ .paused || 0 < underWayTargets s.targets)

def step : (c : Statement) → Store → c.Answer × Store
  | .active, s => (if s.driven then some s.campaign else none, s)
  | .campaign, s => (s.campaign, s)
  | .targets, s => (s.targets, s)
  | .update i copy next code, s => s.writeTarget i copy (Target.settled next code)
  | .lockForLaunch, s => (s.campaign.state.launching, s)
  | .launch i copy next, s =>
    -- The campaign is read under a lock first: nothing starts once it stopped.
    if s.campaign.state.launching then s.writeTarget i copy (Target.launched next) else (none, s)
  | .setState _ _, s => ((), s)
  | .writeState c next, s => s.writeState c next
  | .finishPlanning next, s =>
    if s.campaign.state = .planning then (true, s.withState next) else (false, s)
  | .claimWave wave free limit, s => s.claimWave wave free limit

end Store

end Flotestro.Campaigns
