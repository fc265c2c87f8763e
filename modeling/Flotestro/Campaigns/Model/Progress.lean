import Flotestro.Campaigns.Model.Store

/-!
# What a pass decides about a host

What a pass reads of the tasks, the hosts and the registry is given as `HostFacts`: one value for
each reading the code makes of one host in one pass.  A reading that fails has a value of its own.
The functions here are the decisions over those readings; `none` is a host left as it is.
-/

set_option autoImplicit false

namespace Flotestro.Campaigns

inductive Host where
  | unavailable
  | offline
  | online

/-- Where an open task stands.  SOURCE: progress.go:200-210 -/
inductive Standing where
  | cancelRequested
  | awaitingLock
  | running
  | queued

/-- How a task ended; a state that is neither success nor cancel by its name. -/
inductive JobEnd where
  | succeeded
  | canceled
  | other (state : String)
deriving DecidableEq

/-- What the last attempt of a task that succeeded says. -/
structure Attempt where
  noChange : Bool
  unverified : Bool
  rebootRequired : Bool

/-- The main task of a host, as a pass reads it.  Of a task that ended otherwise than well
it is read whether the session broke while it ran. -/
inductive MainTask where
  | absent
  | unread
  | standing (at_ : Standing) (sameBlocker : Bool)
  | ended (how : JobEnd) (code : ErrorCode) (lost : Option Bool) (attempt : Option Attempt)

/-- What ordering a task that follows the change comes to. -/
inductive Ordered where
  | hostUnavailable
  | refused
  | planUnread
  | ordered

/-- SOURCE: progress.go:489-513 -/
inductive RebootVerdict where
  | waiting
  | windowClosed
  | timedOut

/-- A host after its reboot was ordered. -/
inductive Rebooting where
  | unread
  | failed (code : ErrorCode)
  | away (since : Bool) (verdict : RebootVerdict)
  | back

inductive Verification where
  | waiting
  | failed (code : ErrorCode)
  | succeeded

/-- The plan of a host, as its task gave it.  `matched` is the answer to a plan computed
again: whether it is the approved one, `none` when the approved one could not be read. -/
inductive HostPlan where
  | unread
  | waiting
  | failed (code : ErrorCode)
  | hashMissing
  | refused
  | noChange
  | plan (matched : Option Bool)

/-- SOURCE: internal/remediation -/
inductive RemediationState where
  | missing
  | unread
  | running
  | succeeded
  | stopped
  | failed

/-- SOURCE: orchestrator.go:545-561 -/
inductive RightsVerdict where
  | held
  | gone
  | unknown

inductive Budget where
  | failed
  | full (code : ErrorCode)
  | free

/-- What the creation of a task comes to; a refusal carries the host's code. -/
inductive Creation where
  | refused (code : ErrorCode)
  | created

/-- What the start of a host's remediation plan comes to.
SOURCE: orchestrator.go:675-745 -/
inductive RemediationStart where
  | unread
  | invalid (code : ErrorCode)
  | rightsUnknown
  | rightsGone
  | planRunning
  | failed
  | created

/-- The part of the order that concerns a host.  SOURCE: planning.go:162-168 -/
inductive Mapped where
  | refused (code : ErrorCode)
  | failed
  | mapped

/-- Everything a pass reads of one host. -/
structure HostFacts where
  mainTask : MainTask
  remediation : RemediationState
  reboot : Ordered
  health : Ordered
  rebooting : Rebooting
  verification : Verification
  replan : HostPlan
  queueHost : Host
  replanTask : Creation
  claimFree : Bool
  leaseKept : Bool
  host : Host
  rights : RightsVerdict
  maintenance : Bool
  budget : Budget
  task : Creation
  remediationStart : RemediationStart
  recheckHost : Host
  planHost : Host
  planTask : Creation
  plan : HostPlan
  mapped : Mapped

abbrev Outcome := TargetState × ErrorCode

def ErrorCode.orDefault (code : ErrorCode) (text : String) : ErrorCode :=
  if code = .none then .other text else code

def JobEnd.name : JobEnd → String
  | .succeeded => "succeeded"
  | .canceled => "canceled"
  | .other state => state

/-- SOURCE: progress.go:222-246 -/
def targetOutcome (how : JobEnd) (code : ErrorCode) (lost noChange : Bool) : Outcome :=
  if how = .succeeded ∧ noChange then (.noChange, .none)
  else if how = .succeeded then (.succeeded, .none)
  else if lost then (.unknown, .connectivityLost)
  else if code = .outcomeUnknown then (.unknown, .outcomeUnknown)
  else if code = .cancelAckTimeout then (.unknown, .cancelAckTimeout)
  else if how = .canceled then (.canceled, .other "canceled")
  else if code = .containerNotFound then (.skipped, .containerNotFound)
  else (.failed, code.orDefault how.name)

/-- SOURCE: progress.go:180-210 -/
def followJob (t : Target) (at_ : Standing) (sameBlocker : Bool) : Option Outcome :=
  let follow (next : TargetState) : Option Outcome :=
    if next = t.state && sameBlocker then none else some (next, t.errorCode)
  match at_ with
  | .cancelRequested => none
  | .awaitingLock => follow .awaitingLock
  | .running => follow .running
  | .queued => follow .dispatched

/-- SOURCE: progress.go:339-371 -/
def afterRemediation : RemediationState → Option Outcome
  | .missing => some (.failed, .other "plan_missing")
  | .unread | .running => none
  | .succeeded => some (.succeeded, .none)
  | .stopped => some (.failed, .other "remediation_stopped")
  | .failed => some (.failed, .other "remediation_failed")

/-- SOURCE: progress.go:373-393 -/
def rebootNeeded (order : Order) (attempt : Attempt) : Bool :=
  match order.rebootPolicy with
  | .never => false
  | .always => true
  | .ifRequired => attempt.rebootRequired

/-- SOURCE: progress.go:443-474 -/
def orderHealthCheck : Ordered → Option Outcome
  | .hostUnavailable => some (.failed, .other "host_unavailable")
  | .refused => some (.failed, .other "health_create_failed")
  | .planUnread => none
  | .ordered => some (.verifying, .none)

/-- SOURCE: progress.go:142-178 -/
def orderReboot : Ordered → Option Outcome
  | .hostUnavailable => some (.failed, .other "host_unavailable")
  | .refused => some (.failed, .other "reboot_create_failed")
  | .planUnread => none
  | .ordered => some (.rebooting, .none)

/-- SOURCE: progress.go:40-178 -/
def afterMainJob (order : Order) (t : Target) (f : HostFacts) : Option Outcome :=
  if order.remediation then afterRemediation f.remediation
  else
    match f.mainTask with
    | .absent | .unread => none
    | .standing at_ sameBlocker => followJob t at_ sameBlocker
    | .ended .succeeded _ _ attempt =>
      match attempt with
      | none => none
      | some a =>
        if a.noChange then some (.noChange, .none)
        else if a.unverified then some (.failed, .other "applied_unverified")
        else if rebootNeeded order a then orderReboot f.reboot
        else if order.healthChecks then orderHealthCheck f.health
        else some (.succeeded, .none)
    | .ended how code lost _ => lost.map fun l => targetOutcome how code l false

/-- SOURCE: progress.go:395-441 -/
def afterReboot (order : Order) (f : HostFacts) : Option Outcome :=
  match f.rebooting with
  | .unread => none
  | .failed code => some (.failed, code.orDefault "reboot_failed")
  | .away false _ => none
  | .away true .waiting => none
  | .away true .windowClosed => some (.failed, .rebootWindowClosed)
  | .away true .timedOut => some (.failed, .other "reboot_timeout")
  | .back => if order.healthChecks then orderHealthCheck f.health else some (.succeeded, .none)

/-- SOURCE: progress.go:515-543 -/
def afterHealthCheck (f : HostFacts) : Option Outcome :=
  match f.verification with
  | .waiting => none
  | .failed code =>
    if code = .connectivityLost then some (.unknown, .connectivityLost)
    else some (.failed, .other "health_check_failed")
  | .succeeded => some (.succeeded, .none)

/-- SOURCE: offline.go:155-213 -/
def afterReplan (t : Target) (f : HostFacts) : Option Outcome :=
  if !t.planJob then none
  else
    match f.replan with
    | .unread | .waiting => none
    | .failed code => some (.failed, code.orDefault "plan_failed")
    | .hashMissing => some (.failed, .other "plan_hash_missing")
    | .refused => some (.ineligible, .other "plan_refused")
    | .noChange => some (.noChange, .none)
    | .plan none => none
    | .plan (some false) => some (.skipped, .other "plan_changed_offline")
    | .plan (some true) => some (.pending, .none)

/-- SOURCE: progress.go:19-38 -/
def progressTarget (order : Order) (t : Target) (f : HostFacts) : Option Outcome :=
  match t.state with
  | .dispatched | .awaitingLock | .running => afterMainJob order t f
  | .rebooting => afterReboot order f
  | .verifying => afterHealthCheck f
  | .planning => afterReplan t f
  | _ => none

end Flotestro.Campaigns
