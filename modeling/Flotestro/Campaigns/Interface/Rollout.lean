import Flotestro.Campaigns.Model.Pass

/-!
# Runs of a campaign

A campaign is created with its hosts placed in waves and is then driven by passes of one
orchestrator, among the requests of operators.  A request may come between any two statements of a
pass.  `Rollout` is that system; `Invariant` is what every state of every run satisfies.
-/

set_option autoImplicit false

namespace Flotestro.Campaigns

open Library

/-- SOURCE: store.go:319-327 -/
def assignWave (index canarySize waveSize : Nat) : Int :=
  if index < canarySize then 0 else ((index - canarySize) / waveSize + 1 : Nat)

/-- The row of a host; a host that was settled before the campaign is in no wave. -/
def placed (wave : Int) (state : TargetState) (code : ErrorCode) : Target :=
  { wave := wave, state := state, errorCode := code, planJob := false, revision := 1 }

/-- The hosts that will run, in their waves.  SOURCE: store.go:344-368 -/
def placeReady (canarySize waveSize ready : Nat) : List Target :=
  (List.range ready).map fun i => placed (assignWave i canarySize waveSize) .pending .none

/-- SOURCE: store.go:311-317, store.go:99-105 -/
def firstState (order : Order) (plans : Bool) : State :=
  if plans then .planning else if order.requiresApproval then .awaitingApproval else .planned

/-- A campaign as it is created: `ready` hosts that will run and the hosts that the
caller had settled before, each with its state.  SOURCE: store.go:75-209 -/
inductive Created : Store → Prop where
  | create (order : Order) (plans : Bool) (waveSize ready : Nat)
      (aside : List (TargetState × ErrorCode)) (settled : ∀ a ∈ aside, a.1.finished = true) :
      Created
        { campaign :=
            { order := order
              state := firstState order plans
              gateAdvanced := false
              started := false
              revision := 1 }
          targets := (aside.map fun a => placed waveNone a.1 a.2) ++
            placeReady order.canarySize waveSize ready }

/-- The passes of the orchestrator among the requests of operators. -/
def Rollout : Interleaving Statement Statement.Answer Store where
  Starts p := ∃ facts, p = Pass.advance facts
  Other := Store.Other
  step := Store.step

/-- A state of a run: what is left of the pass that is under way, and the store. -/
abbrev Reached (x : Pass Unit × Store) : Prop := Rollout.Reachable Created x

def canary (targets : List Target) : List Target := targets.filter fun t => t.wave = 0

def CanaryFinished (targets : List Target) : Prop := ∀ t ∈ canary targets, t.state.finished = true

instance decidableCanaryFinished (targets : List Target) : Decidable (CanaryFinished targets) :=
  inferInstanceAs (Decidable (∀ t ∈ canary targets, t.state.finished = true))

namespace Store

/-- The waves may start: the canary is finished, and the gate was advanced or none is
due. -/
def Opened (s : Store) : Prop :=
  CanaryFinished s.targets ∧
    (s.campaign.gateAdvanced = true ∨
      s.campaign.order.manualGate = false ∧
        canaryExercisedNothing s.campaign.order.canarySize s.targets = false)

/-- A gate stands between the canary and the waves, and nobody has advanced it. -/
def GateStands (s : Store) : Prop :=
  CanaryFinished s.targets ∧ s.campaign.gateAdvanced = false ∧
    (s.campaign.order.manualGate = true ∨
      canaryExercisedNothing s.campaign.order.canarySize s.targets = true)

def WaveWaits (s : Store) : Prop := ∃ t ∈ s.targets, 0 < t.wave ∧ t.state = .pending

end Store

/-- A host that has left the queue but has no task of the change. -/
def TargetState.aside (t : TargetState) : Bool :=
  t = .planning || t = .queuedOffline || t = .awaitingBudget

/-- **The invariant of a rollout.** -/
structure Invariant (s : Store) : Prop where
  /-- A host outside the waves is settled. -/
  outside : ∀ t ∈ s.targets, t.wave < 0 → t.state.finished = true
  /-- While the hosts plan, none has a task or waits for a budget. -/
  planning : s.campaign.state = .planning →
    ∀ t ∈ s.targets, t.state.underWay = false ∧ t.state ≠ .awaitingBudget
  /-- A host of a wave has a task only once the waves may start. -/
  started : ∀ t ∈ s.targets, 0 < t.wave → t.state.underWay = true → s.Opened
  /-- A host of a wave leaves the queue only once the waves may start. -/
  queued : s.campaign.state.closed = false → s.campaign.state ≠ .planning →
    ∀ t ∈ s.targets, 0 < t.wave → t.state.aside = true → s.Opened
  /-- At the manual gate a gate stands, and a host behind it waits. -/
  gate : s.campaign.state = .manualGate → s.GateStands ∧ s.WaveWaits
  /-- The hosts under way stay within the limit. -/
  bound : underWayTargets s.targets ≤ s.campaign.order.maxConcurrent

/-! ## Runs in which writes fail

A database that may refuse a write of a target: the statement leaves the rows as they are and answers as
for a row that moved.  What fails is decided beforehand, one answer for each write in its turn. -/

/-- What a pass reads of a write of a target that failed; `none` for every other
statement. -/
def Statement.failed : (c : Statement) → Option c.Answer
  | .update .. | .launch .. => some (none : Option Nat)
  | .claimWave .. => some ([] : List (Nat × Nat))
  | .active | .campaign | .targets | .lockForLaunch | .setState .. | .writeState ..
  | .finishPlanning _ => none

/-- The rows of a campaign, and which of the next writes of targets fail. -/
structure Disturbed where
  store : Store
  failures : List Bool

namespace Disturbed

/-- One transaction of another session. -/
inductive Other : Disturbed → Disturbed → Prop where
  | store {s s' : Store} (h : Store.Other s s') (failures : List Bool) :
      Other ⟨s, failures⟩ ⟨s', failures⟩

/-- A statement, a failure of which has no effect where `spared` says so. -/
def step (spared : Statement → Bool) (c : Statement) (d : Disturbed) : c.Answer × Disturbed :=
  match c.failed with
  | none => ((Store.step c d.store).1, ⟨(Store.step c d.store).2, d.failures⟩)
  | some answer =>
    if d.failures.head? = some true ∧ spared c = false then (answer, ⟨d.store, d.failures.tail⟩)
    else ((Store.step c d.store).1, ⟨(Store.step c d.store).2, d.failures.tail⟩)

end Disturbed

/-- The passes of the orchestrator among the requests of operators, with writes of targets
that fail. -/
def DisturbedRollout (spared : Statement → Bool) :
    Interleaving Statement Statement.Answer Disturbed where
  Starts p := ∃ facts, p = Pass.advance facts
  Other := Disturbed.Other
  step := Disturbed.step spared

/-- A state of a run in which every write of a target may fail but those of `spared`. -/
abbrev DisturbedReached (spared : Statement → Bool) (x : Pass Unit × Disturbed) : Prop :=
  (DisturbedRollout spared).Reachable (fun d => Created d.store) x

/-- The write that closes a host of a campaign whose plans ran out.
SOURCE: orchestrator.go:923-928 -/
def Statement.closesStale : Statement → Bool
  | .update _ _ next code => next = .skipped && code = .other "plan_stale"
  | _ => false

/-- The ends of a campaign whose hosts were planned. -/
def State.ended : State → Bool
  | .completed | .completedWithIssues | .failed | .expired | .canceled => true
  | _ => false

namespace Store

def AllSettled (s : Store) : Prop := ∀ t ∈ s.targets, t.state.finished = true

/-- **The invariant of an end.**  An ended campaign has no open host; one that drains has
no host that is still to start. -/
structure Closing (s : Store) : Prop where
  ended : s.campaign.state.ended = true → s.AllSettled
  draining : s.campaign.state = .canceling →
    ∀ t ∈ s.targets, t.state.finished = true ∨ t.state.underWay = true

end Store

end Flotestro.Campaigns
