import Flotestro.Campaigns.Model.Progress

/-!
# A pass of the orchestrator

A pass works on a copy of the campaign and its targets, read at its start, and writes through the
store's statements; the copy follows the writes that went through.  A failed reading or a refused
write that the code returns as an error ends the pass; one that it logs does not.
-/

set_option autoImplicit false

namespace Flotestro.Campaigns

open Library

/-- SOURCE: capacity.go:86-110 -/
inductive Capacity where
  | held
  | unproven
  | lost
deriving DecidableEq

/-- The plan set a campaign has on record; `some 0` is no plan. -/
abbrev PlansOnRecord := Option Nat

/-- Everything one pass reads outside the rows of the campaign. -/
structure Facts where
  /-- `none` when the age of the oldest plan could not be read. -/
  plansExpired : Option Bool
  capacity : Capacity
  withinWindow : Bool
  /-- What each look at the clock says, by the target it is for. -/
  pastDeadline : Nat → Bool
  payloadReads : Bool
  mappingReads : Bool
  plans : PlansOnRecord
  host : Nat → HostFacts

/-- A program of the orchestrator. -/
abbrev Pass := Prog Statement Statement.Answer

namespace Pass

/-! ## Statements with their copy -/

def active : Pass (Option Campaign) := Prog.issue Statement.active

def readCampaign : Pass Campaign := Prog.issue Statement.campaign

def readTargets : Pass (List Target) := Prog.issue Statement.targets

def lockForLaunch : Pass Bool := Prog.issue Statement.lockForLaunch

def claimWave (wave : Int) (free : Nat → Bool) (limit : Nat) : Pass (List (Nat × Nat)) :=
  Prog.issue (Statement.claimWave wave free limit)

/-- The copy after a write into one of its rows. -/
def withRow (m : Store) (i : Nat) (t : Target) : Store := { m with targets := m.targets.set i t }

/-- The copy after a write, and whether it went through. -/
def written (m : Store) (i : Nat) (t : Target) (change : Target → Target) :
    Option Nat → Store × Bool
  | some revision => (withRow m i { change t with revision := revision }, true)
  | none => (m, false)

/-- SOURCE: store.go:1356-1380, progress.go:553-571, progress.go:841-859 -/
def updateTarget (m : Store) (i : Nat) (t : Target) (outcome : Outcome) : Pass (Store × Bool) :=
  if t.state.mayBecome outcome.1 then do
    let answer ← (Prog.issue (Statement.update i t outcome.1 outcome.2) : Pass (Option Nat))
    pure (written m i t (Target.settled outcome.1 outcome.2) answer)
  else pure (m, false)

/-- A host is settled; a write that does not go through is logged only.
SOURCE: progress.go:545-589 -/
def finishTarget (m : Store) (i : Nat) (t : Target) (outcome : Outcome) : Pass (Store × Bool) := do
  let (m', _) ← updateTarget m i t outcome
  pure (m', true)

/-- SOURCE: orchestrator.go:516-543 -/
def launch (m : Store) (i : Nat) (t : Target) (next : TargetState) : Pass (Store × Bool) :=
  if t.state.mayBecome next then do
    let answer ← (Prog.issue (Statement.launch i t next) : Pass (Option Nat))
    pure (written m i t (Target.launched next) answer)
  else pure (m, false)

/-- A task that could not be created closes the host, if the campaign still starts
hosts.  SOURCE: orchestrator.go:529-532 -/
def refuse (m : Store) (i : Nat) (t : Target) (code : ErrorCode) : Pass (Store × Bool) := do
  if ← lockForLaunch then finishTarget m i t (.failed, code) else pure (m, false)

/-- The attempts of `SetState`.  SOURCE: store.go:698-743 -/
def attempts (next : State) : Nat → Campaign → Pass (Campaign × Bool)
  | 0, c => pure (c, false)
  | n + 1, c =>
    if c.state.mayBecome next then do
      match ← (Prog.issue (Statement.writeState c next) : Pass (Option Nat)) with
      | some revision => pure ({ c with state := next, revision := revision }, true)
      | none =>
        let fresh ← readCampaign
        if fresh.state = c.state then attempts next n fresh else pure (fresh, false)
    else pure (c, false)

/-- SOURCE: store.go:682-744 -/
def setState (m : Store) (next : State) : Pass (Store × Bool) := do
  let _ ← (Prog.issue (Statement.setState m.campaign next) : Pass Unit)
  let (c, done) ← attempts next 3 m.campaign
  pure ({ m with campaign := c }, done)

/-- A last call of `SetState`, whose answer ends the pass. -/
def endWith (m : Store) (next : State) : Pass Unit := do
  let _ ← setState m next
  pure ()

/-- Run over the targets of a copy. -/
def forTargets (f : Store → Nat → Pass (Store × Bool)) (m : Store) : Pass (Store × Bool) :=
  Prog.each f (List.range m.targets.length) m

variable (facts : Facts) (m : Store)

/-- SOURCE: orchestrator.go:247-256 -/
def progress (i : Nat) : Pass (Store × Bool) :=
  match m.targets[i]? with
  | none => pure (m, true)
  | some t =>
    match progressTarget m.campaign.order t (facts.host i) with
    | none => pure (m, true)
    | some outcome => finishTarget m i t outcome

def closeOpen (code : ErrorCode) (m : Store) (i : Nat) : Pass (Store × Bool) :=
  match m.targets[i]? with
  | none => pure (m, true)
  | some t => if t.state.finished then pure (m, true) else finishTarget m i t (.skipped, code)

/-- SOURCE: orchestrator.go:913-931 -/
def expire (c : Campaign) : Pass Unit := do
  let targets ← readTargets
  let (m, _) ← forTargets (closeOpen (.other "plan_stale")) ⟨c, targets⟩
  endWith m .expired

/-- SOURCE: orchestrator.go:345-369 -/
def settle : Pass Unit :=
  if facts.capacity = .lost then pure ()
  else do
    let (m, _) ← forTargets (progress facts) m
    if m.campaign.state ≠ .pausing ∨ !cancelSettled m.targets then pure () else endWith m .paused

/-- SOURCE: orchestrator.go:952-970 -/
def drain : Pass Unit :=
  if facts.capacity = .lost then pure ()
  else do
    let (m, _) ← forTargets (progress facts) m
    if !cancelSettled m.targets then pure () else endWith m .canceled

/-- SOURCE: progress.go:672-676 -/
def pauseCampaign : Pass Unit := endWith m (pauseState m.targets)

/-- SOURCE: progress.go:678-684 -/
def complete : Pass Unit := endWith m (settleCampaignState (tallyTargets m.targets))

/-- SOURCE: offline.go:279-296 -/
def enterGate : Pass Unit :=
  if m.campaign.state = .manualGate then pure () else endWith m .manualGate

/-! ## Hosts that are away -/

/-- SOURCE: offline.go:18-59 -/
def holdOffline (i : Nat) (t : Target) : Pass (Store × Bool) :=
  match m.campaign.order.offlinePolicy with
  | .requireOnline => finishTarget m i t (.skipped, .other "offline")
  | .skip => finishTarget m i t (.skipped, .other "skipped_offline")
  | .wait | .replan =>
    if facts.pastDeadline i then finishTarget m i t (.skipped, .other "offline_deadline")
    else if t.state = .queuedOffline then pure (m, true)
    else updateTarget m i t (.queuedOffline, .other "offline")

/-- SOURCE: offline.go:105-153 -/
def replanTarget (i : Nat) (t : Target) : Pass (Store × Bool) :=
  if !m.campaign.order.planner then
    finishTarget m i t (.skipped, .other "plan_changed_offline")
  else if !facts.payloadReads then pure (m, false)
  else
    match (facts.host i).replanTask with
    | .refused _ => refuse m i t (.other "plan_create_failed")
    | .created => launch m i t .planning

/-- SOURCE: offline.go:67-103 -/
def serviceOffline (i : Nat) : Pass (Store × Bool) :=
  match m.targets[i]? with
  | none => pure (m, true)
  | some t =>
    if t.state ≠ .queuedOffline then pure (m, true)
    else
      match (facts.host i).queueHost with
      | .unavailable => finishTarget m i t (.skipped, .other "host_unavailable")
      | .offline =>
        if facts.pastDeadline i then finishTarget m i t (.skipped, .other "offline_deadline")
        else pure (m, true)
      | .online =>
        if m.campaign.order.offlinePolicy = .replan then replanTarget facts m i t
        else updateTarget m i t (.pending, .none)

/-! ## Starting a wave -/

/-- The copy and the number of hosts at work, as the loop of a wave carries them. -/
structure Wave where
  copy : Store
  running : Nat

/-- The loop goes on with a copy, and with one host more at work if one was started. -/
def Wave.after (w : Wave) (started : Nat) (r : Store × Bool) : Wave × Bool :=
  (⟨r.1, w.running + started⟩, r.2)

/-- SOURCE: capacity.go:44-52 -/
def awaitBudget (i : Nat) (t : Target) (code : ErrorCode) : Pass (Store × Bool) :=
  if t.state ≠ .awaitingBudget ∨ t.errorCode ≠ code then updateTarget m i t (.awaitingBudget, code)
  else pure (m, true)

def pauseWave : Pass (Store × Bool) := do
  let (m', _) ← setState m (pauseState m.targets)
  pure (m', false)

/-- A host is started: its task, or its remediation plan, goes out with its new state. -/
def startHost (w : Wave) (i : Nat) (t : Target) (next : TargetState) : Pass (Wave × Bool) := do
  let (m', done) ← launch w.copy i t next
  pure (w.after (if done then 1 else 0) (m', done))

/-- SOURCE: orchestrator.go:673-777 -/
def startRemediation (f : HostFacts) (w : Wave) (i : Nat) (t : Target) : Pass (Wave × Bool) :=
  match f.remediationStart with
  | .unread | .failed => pure (w, false)
  | .invalid code => w.after 0 <$> finishTarget w.copy i t (.failed, code)
  | .rightsUnknown => w.after 0 <$> pauseWave w.copy
  | .rightsGone => w.after 0 <$> finishTarget w.copy i t (.skipped, .other "out_of_scope")
  | .planRunning => w.after 0 <$> refuse w.copy i t (.other "plan_in_progress")
  | .created => startHost w i t .running

/-- SOURCE: orchestrator.go:437-503 -/
def startClaimed (f : HostFacts) (w : Wave) (i : Nat) (t : Target) : Pass (Wave × Bool) :=
  match f.budget with
  | .failed => pure (w, false)
  | .full code => w.after 0 <$> awaitBudget w.copy i t code
  | .free =>
    if w.copy.campaign.order.remediation then startRemediation f w i t
    else
      match f.task with
      | .refused code => w.after 0 <$> refuse w.copy i t code
      | .created => startHost w i t .dispatched

/-- SOURCE: orchestrator.go:404-435 -/
def startWaiting (w : Wave) (i : Nat) (t : Target) : Pass (Wave × Bool) :=
  let f := facts.host i
  match f.host with
  | .unavailable => w.after 0 <$> finishTarget w.copy i t (.skipped, .other "host_unavailable")
  | .offline => w.after 0 <$> holdOffline facts w.copy i t
  | .online =>
    match f.rights with
    | .unknown => w.after 0 <$> pauseWave w.copy
    | .gone => w.after 0 <$> finishTarget w.copy i t (.skipped, .other "out_of_scope")
    | .held =>
      if f.maintenance then w.after 0 <$> finishTarget w.copy i t (.skipped, .other "maintenance")
      else startClaimed f w i t

/-- One claimed host of a wave.  SOURCE: orchestrator.go:390-402 -/
def launchClaimed (w : Wave) (i : Nat) : Pass (Wave × Bool) :=
  match w.copy.targets[i]? with
  | none => pure (w, true)
  | some t =>
    if !t.state.waiting ∨ t.state = .queuedOffline then pure (w, true)
    else if w.running ≥ w.copy.campaign.order.maxConcurrent then pure (w, false)
    else if !(facts.host i).leaseKept then pure (w, false)
    else startWaiting facts w i t

/-- A row of the copy takes over the revision that a claim wrote.
SOURCE: orchestrator.go:390-396 -/
def adopted (claimed : List (Nat × Nat)) (i : Nat) (t : Target) : Target :=
  match claimed.lookup i with
  | some revision =>
    if !t.state.waiting ∨ t.state = .queuedOffline then t else { t with revision := revision }
  | none => t

def adopt (claimed : List (Nat × Nat)) (m : Store) : Store :=
  { m with targets := m.targets.mapIdx (adopted claimed) }

/-- SOURCE: orchestrator.go:371-505 -/
def launchWave (wave : Int) : Pass Unit :=
  let running := activeTargets m.targets
  if running ≥ m.campaign.order.maxConcurrent then pure ()
  else do
    let claimed ← claimWave wave (fun i => (facts.host i).claimFree)
      (m.campaign.order.maxConcurrent - running)
    let _ ← Prog.each (launchClaimed facts) (claimed.map Prod.fst) ⟨adopt claimed m, running⟩
    pure ()

/-- SOURCE: orchestrator.go:329-333 -/
def desiredState (c : Campaign) (wave : Int) : State :=
  if wave = 0 ∧ c.state ≠ .running then .canary else .running

/-- The campaign enters the phase of a wave, and the wave starts.
SOURCE: orchestrator.go:334-342 -/
def enterPhase (wave : Int) (desired : State) : Pass Unit :=
  if m.campaign.state ≠ desired then do
    let (m, done) ← setState m desired
    if done then launchWave facts m wave else pure ()
  else launchWave facts m wave

/-- SOURCE: orchestrator.go:304-342 -/
def startWave : Pass Unit :=
  let wave := currentWave m.targets
  let c := m.campaign
  if wave < 0 then pure ()
  else if !waveFinished m.targets (wave - 1) then pure ()
  else if 0 < wave ∧ c.order.manualGate ∧ !c.gateAdvanced then enterGate m
  else if 0 < wave ∧ !c.gateAdvanced ∧ canaryExercisedNothing c.order.canarySize m.targets then
    enterGate m
  else enterPhase facts m wave (desiredState c wave)

/-- A host that was open before and ended because the maintenance window closed while it
rebooted.  SOURCE: orchestrator.go:246-256 -/
def windowClosed (before after : List Target) : Bool :=
  (before.zip after).any fun (t, u) => !t.state.finished && u.rebootWindowClosed

/-- A pass over a campaign that starts hosts.  SOURCE: orchestrator.go:235-302 -/
def rollOut (m₀ : Store) : Pass Unit :=
  if facts.capacity = .lost then pure ()
  else do
    let (m, _) ← forTargets (progress facts) m₀
    let order := m.campaign.order
    let counts := tallyTargets m.targets
    if windowClosed m₀.targets m.targets then pauseCampaign m
    else if thresholdExceeded counts.failed counts.finished order.failureThresholdPercent
        order.failureThresholdAbsolute then pauseCampaign m
    else if order.connectivityLostAbsolute > 0 ∧ counts.lost ≥ order.connectivityLostAbsolute then
      pauseCampaign m
    else if allFinished m.targets then complete m
    else do
      let (m, goesOn) ← forTargets (serviceOffline facts) m
      if !goesOn then pure ()
      else if !facts.withinWindow then pure ()
      else if facts.capacity = .unproven then pure ()
      else startWave facts m

/-- The copy and the number of hosts whose plan is settled. -/
structure Planning where
  copy : Store
  settled : Nat

def Planning.after (p : Planning) (settled : Nat) (r : Store × Bool) : Planning × Bool :=
  (⟨r.1, p.settled + settled⟩, r.2)

/-- SOURCE: planning.go:968-998 -/
def failPlanning : Pass Unit := do
  let (m, _) ← forTargets (closeOpen (.other "plan_failed")) m
  endWith m .planFailed

/-- SOURCE: planning.go:196-232 -/
def orderPlan (i : Nat) (t : Target) : Pass (Store × Bool) :=
  match (facts.host i).planHost with
  | .unavailable => finishTarget m i t (.skipped, .other "host_unavailable")
  | .offline => holdOffline facts m i t
  | .online =>
    match (facts.host i).planTask with
    | .refused _ => refuse m i t (.other "plan_create_failed")
    | .created => launch m i t .planning

/-- A host that was away when its plan was ordered; back, its plan is ordered.
SOURCE: planning.go:234-256, planning.go:110-122 -/
def recheckOfflinePlanning (i : Nat) (t : Target) :
    Pass (Store × Bool) :=
  match (facts.host i).recheckHost with
  | .unavailable => finishTarget m i t (.skipped, .other "host_unavailable")
  | .offline =>
    if facts.pastDeadline i then finishTarget m i t (.skipped, .other "offline_deadline")
    else pure (m, true)
  | .online => do
    let (m, done) ← updateTarget m i t (.pending, .none)
    match done, m.targets[i]? with
    | true, some t => orderPlan facts m i t
    | _, _ => pure (m, false)

/-- SOURCE: planning.go:258-315 -/
def collectPlan (p : Planning) (i : Nat) (t : Target) : Pass (Planning × Bool) :=
  if !t.planJob then pure (p, true)
  else
    match (facts.host i).plan with
    | .unread => pure (p, false)
    | .waiting => pure (p, true)
    | .failed code =>
      p.after 1 <$> finishTarget p.copy i t (.failed, code.orDefault "plan_failed")
    | .hashMissing => p.after 1 <$> finishTarget p.copy i t (.failed, .other "plan_hash_missing")
    | .refused => p.after 1 <$> finishTarget p.copy i t (.ineligible, .other "plan_refused")
    | .noChange => p.after 1 <$> finishTarget p.copy i t (.noChange, .none)
    | .plan _ => p.after 1 <$> updateTarget p.copy i t (.pending, .none)

/-- SOURCE: planning.go:43-58, planning.go:85-123 -/
def planHost (p : Planning) (i : Nat) : Pass (Planning × Bool) :=
  match p.copy.targets[i]? with
  | none => pure (p, true)
  | some t =>
    if t.state.finished then pure ({ p with settled := p.settled + 1 }, true)
    else
      match t.state with
      | .pending =>
        if t.planJob then collectPlan facts p i t else p.after 0 <$> orderPlan facts p.copy i t
      | .planning => collectPlan facts p i t
      | .queuedOffline => p.after 0 <$> recheckOfflinePlanning facts p.copy i t
      | _ => pure (p, true)

/-- SOURCE: planning.go:152-187 -/
def planFromOrderHost (p : Planning) (i : Nat) : Pass (Planning × Bool) :=
  match p.copy.targets[i]? with
  | none => pure (p, true)
  | some t =>
    if t.state.finished then pure ({ p with settled := p.settled + 1 }, true)
    else if t.state ≠ .pending ∧ t.state ≠ .queuedOffline then pure (p, true)
    else
      match (facts.host i).mapped with
      | .refused code => p.after 1 <$> finishTarget p.copy i t (.ineligible, code)
      | .failed => pure (p, false)
      | .mapped => do
        let (m, done) ← updateTarget p.copy i t (.planning, .none)
        match done, m.targets[i]? with
        | true, some t => p.after 1 <$> updateTarget m i t (.pending, .none)
        | _, _ => pure (⟨m, p.settled⟩, false)

/-- SOURCE: planning.go:528-567 -/
def finishPlanning : Pass Unit :=
  if allFinished m.targets then
    if (tallyTargets m.targets).succeeded = 0 then failPlanning m else complete m
  else
    match facts.plans with
    | none => pure ()
    | some 0 => failPlanning m
    | some _ => do
      let next := if m.campaign.order.requiresApproval then State.awaitingApproval else State.planned
      let _ ← (Prog.issue (Statement.finishPlanning next) : Pass Bool)
      pure ()

/-- The planning loop over the hosts, and its end once every host is settled. -/
def planAll (f : Planning → Nat → Pass (Planning × Bool)) (m : Store) :
    Pass Unit := do
  let (p, goesOn) ← Prog.each f (List.range m.targets.length) ⟨m, 0⟩
  if !goesOn then pure ()
  else if p.settled < p.copy.targets.length then pure ()
  else finishPlanning facts p.copy

/-- SOURCE: planning.go:60-194 -/
def plan : Pass Unit :=
  if m.campaign.order.panelPlanned then
    if !facts.mappingReads then failPlanning m
    else if !facts.payloadReads then pure ()
    else planAll facts (planFromOrderHost facts) m
  else if !m.campaign.order.planner then failPlanning m
  else if !facts.payloadReads then pure ()
  else planAll facts (planHost facts) m

/-- SOURCE: orchestrator.go:213-233 -/
def drive (c : Campaign) : Pass Unit := do
  let targets ← readTargets
  let m : Store := ⟨c, targets⟩
  match c.state with
  | .planning => plan facts m
  | .canceling => drain facts m
  | .pausing | .paused => settle facts m
  | _ => rollOut facts m

/-- SOURCE: orchestrator.go:101-150, orchestrator.go:195-222 -/
def advance : Pass Unit := do
  match ← active with
  | none => pure ()
  | some c =>
    if c.state = .awaitingApproval ∨ (c.state = .planned ∧ !c.started) then
      match facts.plansExpired with
      | none => pure ()
      | some expired =>
        if expired && !c.started then expire c
        else if c.state = .awaitingApproval then pure ()
        else drive facts c
    else drive facts c

end Pass

end Flotestro.Campaigns
