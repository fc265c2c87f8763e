import Flotestro.Library.Runs

/-!
# The age of a host's plan

A campaign whose plans the hosts compute.  A planning pass goes over the targets one by one, and time
passes between any two events.  The column `computed_at` is written when the panel records a plan; a
planned target goes back to the queue with the reference to its planning task, so that the next pass
of the planning phase records its plan again.  A host that was away while the campaign ran may be
planned again when it is back.
-/

set_option autoImplicit false

namespace Flotestro.PlanAge

open Library

variable {δ : Type}

/-- A day, in seconds.  SOURCE: model.go:418-419 -/
def planTTL : Int := 86400

/-- What the result of a succeeded planning task says.  SOURCE: planning.go:281-310 -/
inductive Verdict where
  | change | noChange | refused

/-- How a planning task ended. -/
inductive Outcome (δ : Type) where
  | failed
  /-- It succeeded, and its result has no digest. -/
  | noDigest
  | plan (digest : δ) (verdict : Verdict)

/-- A planning task: when it ended, and how. -/
structure Job (δ : Type) where
  ended : Option (Int × Outcome δ)

inductive TargetState where
  | pending | planning | queuedOffline | finished | launched
  deriving DecidableEq

/-- The row of a host in `campaign_plans`. -/
structure HostPlan (δ : Type) where
  digest : δ
  computedAt : Int

/-- A target with its last planning task, whether its row refers to that task, the tasks
before it, and the plan on record. -/
structure Target (δ : Type) where
  state : TargetState
  planJobId : Bool
  job : Option (Job δ)
  earlier : List (Job δ)
  plan : Option (HostPlan δ)

inductive State where
  | planning | awaitingApproval | planned | running | paused | ended
  deriving DecidableEq

/-- A planning pass: the index of the next target, and how many have settled. -/
structure Pass where
  next : Nat
  settled : Nat

/-- The main task of a host as it was submitted. -/
structure Submission (δ : Type) where
  target : Nat
  digest : δ
  at_ : Int

structure World (δ : Type) where
  now : Int
  state : State
  requiresApproval : Bool
  /-- The offline policy plans a host again when it is back. -/
  replans : Bool
  targets : List (Target δ)
  pass : Option Pass
  submitted : List (Submission δ)

/-- What a pass learns of a host. -/
structure Facts where
  known : Bool
  online : Bool
  /-- The offline policy waits for the host, and its deadline has not passed. -/
  waits : Bool
  /-- The planning task is accepted. -/
  accepted : Bool

inductive Event (δ : Type) where
  | tick (by_ : Nat)
  /-- A planning task ends on its host. -/
  | jobEnds (i : Nat) (outcome : Outcome δ)
  | passBegins
  | visit (facts : Facts)
  | passEnds
  /-- An error ends the pass. -/
  | passBreaks
  | approve
  | start
  | pause
  | resume
  | expire
  | cancel
  /-- A queued host goes offline. -/
  | away (i : Nat)
  | serviceOffline (i : Nat) (facts : Facts)
  | afterReplan (i : Nat)
  | createJob (i : Nat)

namespace Target

variable (t : Target δ)

/-- SOURCE: planning.go:170-214, offline.go:20-59 -/
def orderPlan (facts : Facts) : Target δ :=
  if !facts.known then { t with state := .finished }
  else if !facts.online then
    if facts.waits then { t with state := .queuedOffline } else { t with state := .finished }
  else if !facts.accepted then { t with state := .finished }
  else
    { t with
      state := .planning
      planJobId := true
      job := some (t.job.getD ⟨none⟩) }

/-- `savePlan`.  SOURCE: store.go:806-819 -/
def savePlan (digest : δ) (now : Int) : Target δ :=
  { t with plan := some ⟨digest, now⟩ }

/-- The target after its plan was collected, and whether it has settled.
SOURCE: planning.go:259-318, 372-399 -/
def collectPlan (now : Int) : Target δ × Bool :=
  match t.job.bind Job.ended with
  | none => (t, false)
  | some (_, .failed) | some (_, .noDigest) | some (_, .plan _ .refused) =>
    ({ t with state := .finished }, true)
  | some (_, .plan digest .noChange) => ({ t.savePlan digest now with state := .finished }, true)
  | some (_, .plan digest .change) => ({ t.savePlan digest now with state := .pending }, true)

/-- SOURCE: planning.go:232-257, 108-122 -/
def recheckOffline (facts : Facts) : Target δ :=
  if !facts.known then { t with state := .finished }
  else if !facts.online then
    if facts.waits then t else { t with state := .finished }
  else { t with state := .pending }.orderPlan facts

/-- Another planning task is ordered.  SOURCE: offline.go:105-153 -/
def replanTarget (facts : Facts) : Target δ :=
  if !facts.accepted then { t with state := .finished }
  else
    { t with
      state := .planning
      planJobId := true
      job := some ⟨none⟩
      earlier := t.job.toList ++ t.earlier }

/-- SOURCE: offline.go:67-103 -/
def serviceOffline (facts : Facts) (replans : Bool) : Target δ :=
  if t.state ≠ .queuedOffline then t
  else if !facts.known then { t with state := .finished }
  else if !facts.online then
    if facts.waits then t else { t with state := .finished }
  else if replans then t.replanTarget facts
  else { t with state := .pending }

/-- SOURCE: offline.go:155-216, progress.go:31-34 -/
def afterReplan [DecidableEq δ] (t : Target δ) (now : Int) : Target δ :=
  if t.state = .planning ∧ t.planJobId then
    match t.job.bind Job.ended with
    | none => t
    | some (_, .plan digest .change) =>
      if t.plan.map HostPlan.digest = some digest then { t.savePlan digest now with state := .pending }
      else { t with state := .finished }
    | some _ => { t with state := .finished }
  else t

/-- What a planning pass does with a target.  SOURCE: planning.go:44-59, 84-123 -/
def visit (facts : Facts) (now : Int) : Target δ × Bool :=
  match t.state with
  | .finished => (t, true)
  | .pending => if t.planJobId then t.collectPlan now else (t.orderPlan facts, false)
  | .planning => if t.planJobId then t.collectPlan now else (t, false)
  | .queuedOffline => (t.recheckOffline facts, false)
  | .launched => (t, false)

/-- A planning task of the target ended at the moment with the digest in its result. -/
def Holds (digest : δ) (ended : Int) : Prop :=
  ∃ verdict, ⟨some (ended, .plan digest verdict)⟩ ∈ t.job.toList ++ t.earlier

end Target

namespace World

/-- A campaign in planning with so many hosts. -/
def created (requiresApproval replans : Bool) (hosts : Nat) : World δ where
  now := 0
  state := .planning
  requiresApproval := requiresApproval
  replans := replans
  targets := List.replicate hosts ⟨.pending, false, none, [], none⟩
  pass := none
  submitted := []

def setTarget (w : World δ) (i : Nat) (f : Target δ → Target δ) : World δ :=
  { w with targets := w.targets.modify i f }

/-- SOURCE: planning.go:125-129, 530-567 -/
def finishPlanning (w : World δ) : World δ :=
  if w.targets.all fun t => t.state = .finished then { w with state := .ended }
  else if w.targets.all fun t => t.plan.isNone then { w with state := .ended }
  else { w with state := if w.requiresApproval then .awaitingApproval else .planned }

/-- The oldest plan on record is older than a plan may be.  SOURCE: model.go:858-863 -/
def plansExpired (w : World δ) : Bool :=
  w.targets.any fun t =>
    match t.plan with
    | none => false
    | some p => planTTL < w.now - p.computedAt

/-- SOURCE: orchestrator.go:637-671 -/
def createJob (w : World δ) (i : Nat) (p : HostPlan δ) : World δ :=
  if planTTL < w.now - p.computedAt then w.setTarget i fun t => { t with state := .finished }
  else
    { w.setTarget i (fun t => { t with state := .launched }) with
      submitted := w.submitted ++ [⟨i, p.digest, w.now⟩] }

def step [DecidableEq δ] : Event δ → World δ → Option (World δ)
  | .tick d, w => some { w with now := w.now + d }
  | .jobEnds i outcome, w =>
    match w.targets[i]? with
    | some ⟨_, _, some ⟨none⟩, _, _⟩ =>
      some (w.setTarget i fun t => { t with job := some ⟨some (w.now, outcome)⟩ })
    | _ => none
  | .passBegins, w =>
    if w.state = .planning ∧ w.pass = none then some { w with pass := some ⟨0, 0⟩ } else none
  | .visit facts, w =>
    match w.pass with
    | none => none
    | some pass =>
      match w.targets[pass.next]? with
      | none => none
      | some t =>
        some { w with
          targets := w.targets.set pass.next (t.visit facts w.now).1
          pass := some ⟨pass.next + 1, pass.settled + if (t.visit facts w.now).2 then 1 else 0⟩ }
  | .passEnds, w =>
    match w.pass with
    | none => none
    | some pass =>
      if pass.next = w.targets.length then
        if pass.settled < w.targets.length ∨ w.state ≠ .planning then some { w with pass := none }
        else some { w with pass := none }.finishPlanning
      else none
  | .passBreaks, w => some { w with pass := none }
  | .approve, w => if w.state = .awaitingApproval then some { w with state := .planned } else none
  | .start, w => if w.state = .planned then some { w with state := .running } else none
  | .pause, w => if w.state = .running then some { w with state := .paused } else none
  | .resume, w => if w.state = .paused then some { w with state := .running } else none
  | .expire, w =>
    if (w.state = .awaitingApproval ∨ w.state = .planned) ∧ w.plansExpired then
      some { w with state := .ended }
    else none
  | .cancel, w => some { w with state := .ended }
  | .away i, w =>
    if w.state = .running then
      some (w.setTarget i fun t => if t.state = .pending then { t with state := .queuedOffline } else t)
    else none
  | .serviceOffline i facts, w =>
    if w.state = .running then some (w.setTarget i fun t => t.serviceOffline facts w.replans) else none
  | .afterReplan i, w =>
    if w.state = .running ∨ w.state = .paused then
      some (w.setTarget i fun t => t.afterReplan w.now)
    else none
  | .createJob i, w =>
    match w.targets[i]? with
    | some ⟨.pending, _, _, _, some p⟩ => if w.state = .running then some (w.createJob i p) else none
    | _ => none

/-- A planning task of a target ended at the moment with the digest in its result. -/
def EndedWith (w : World δ) (i : Nat) (digest : δ) (ended : Int) : Prop :=
  ∃ t, w.targets[i]? = some t ∧ t.Holds digest ended

/-- Every main task was submitted while a task that computed its plan was not older than a
plan may be. -/
def FreshPlans (w : World δ) : Prop :=
  ∀ s ∈ w.submitted, ∃ ended, w.EndedWith s.target s.digest ended ∧ s.at_ - ended ≤ planTTL

end World

end Flotestro.PlanAge
