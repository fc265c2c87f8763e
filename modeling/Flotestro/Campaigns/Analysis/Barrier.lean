import Flotestro.Campaigns.Analysis.Passes

/-!
# What every run of a rollout keeps

The main results: the barrier between the canary and the waves with the limit on the hosts under way,
and the legality of the transitions a pass asks for.
-/

set_option autoImplicit false

namespace Flotestro.Campaigns

open Library List

/-! ## The invariant of every run -/

theorem assignWave_nonneg (index canarySize waveSize : Nat) :
    0 ≤ assignWave index canarySize waveSize := by
  unfold assignWave
  split
  · exact Int.le_refl 0
  · exact Int.natCast_nonneg _

section
variable {s : Store} (hs : Created s) {t : Target} (ht : t ∈ s.targets)
include hs ht

theorem created_row : t.state.finished = true ∨ t.state = .pending ∧ 0 ≤ t.wave := by
  cases hs with
  | create order plans waveSize ready aside settled =>
    rcases mem_append.mp ht with ht | ht
    · obtain ⟨a, ha, rfl⟩ := mem_map.mp ht
      exact .inl (settled a ha)
    · obtain ⟨i, _, rfl⟩ := mem_map.mp ht
      exact .inr ⟨rfl, assignWave_nonneg _ _ _⟩

theorem created_idle : t.state.underWay = false ∧ t.state.aside = false := by
  rcases created_row hs ht with hfin | ⟨hpending, _⟩
  · exact ⟨TargetState.underWay_of_finished hfin, TargetState.aside_of_finished hfin⟩
  · rw [hpending]
    exact ⟨rfl, rfl⟩

end

theorem invariant_created {s : Store} (hs : Created s) : Invariant s := by
  refine ⟨?_, ?_, ?_, ?_, ?_, ?_⟩
  · intro t ht hwave
    rcases created_row hs ht with hfin | ⟨_, hpos⟩
    · exact hfin
    · omega
  · intro _ t ht
    exact ⟨(created_idle hs ht).1, TargetState.ne_awaitingBudget (created_idle hs ht).2⟩
  · intro t ht _ hunder
    rw [(created_idle hs ht).1] at hunder
    cases hunder
  · intro _ _ t ht _ haside
    rw [(created_idle hs ht).2] at haside
    cases haside
  · intro hgate
    cases hs with
    | create order plans =>
      unfold firstState at hgate
      split at hgate
      · exact State.noConfusion hgate
      · split at hgate <;> exact State.noConfusion hgate
  · have hnone : underWayTargets s.targets = 0 := by
      unfold underWayTargets
      rw [countP_eq_zero]
      intro t ht hunder
      rw [(created_idle hs ht).1] at hunder
      exact Bool.false_ne_true hunder
    omega

/-- In every state of every run the invariant holds, and what is left of the pass is
safe. -/
theorem reached_safe {x : Pass Unit × Store} (hx : Reached x) :
    Invariant x.2 ∧ SafePass x.1 (fun _ _ => True) x.2 := by
  refine Interleaving.safe_of_reachable (fun _ => invariant_created)
    (fun _ _ hs h => hs.ahead (.of_other h)) invariant_step ?_ hx
  rintro _ s ⟨facts, rfl⟩ hs
  exact safe_advance facts hs

/-- What a step may do to one row. -/
structure RowMoves (s : Store) (t u : Target) : Prop where
  wave : u.wave = t.wave
  finished : t.state.finished = true → u.state = t.state
  started : 0 < t.wave → u.state ≠ t.state → u.state.underWay = true → s.Opened

/-- What a step may do to the rows. -/
def Moves (s s' : Store) : Prop :=
  ∀ (i : Nat) (t : Target), s.targets[i]? = some t →
    ∃ u, s'.targets[i]? = some u ∧ RowMoves s t u

variable {s s' : Store}

theorem moves_of_eq (h : s'.targets = s.targets) : Moves s s' := by
  intro i t ht
  exact ⟨t, by rw [h, ht], rfl, fun _ => rfl, fun _ hne => absurd rfl hne⟩

theorem moves_of_ahead (h : Ahead s s') : Moves s s' := by
  intro i t ht
  obtain ⟨u, hu, hrow⟩ := h.row_of_copy ht
  refine ⟨u, hu, hrow.wave, fun hfin => by rw [hrow.finished hfin], fun _ hne hunder => ?_⟩
  exact absurd (hrow.state_eq (TargetState.finished_of_underWay hunder)) hne

theorem moves_writeTarget (hs : Invariant s) {i : Nat} {copy : Target} {change : Target → Target}
    {next : TargetState} (hchange : ∀ t, (change t).wave = t.wave ∧ (change t).state = next)
    (hok : ∀ t, s.targets[i]? = some t → t.revision = copy.revision → t.state = copy.state →
      s.Movable t next) : Moves s (s.writeTarget i copy change).2 := by
  rcases Store.writeTarget_eq s i copy change with h | ⟨t, ht, hrev, hstate, h⟩
  · rw [h]
    exact moves_of_eq rfl
  rw [h]
  have hmov := hok t ht hrev hstate
  intro j u hu
  by_cases hij : i = j
  · subst hij
    obtain rfl : t = u := Option.mem_unique ht hu
    have hlt := (List.getElem?_eq_some_iff.mp ht).1
    refine ⟨_, getElem?_set_self hlt, (hchange t).1, ?_, ?_⟩
    · intro hfin
      rw [not_finished_of_mayBecome hmov.legal] at hfin
      cases hfin
    · intro hwave _ hunder
      rw [show ({ change t with revision := t.revision + 1 } : Target).state = next from
        (hchange t).2] at hunder
      rcases hmov.work hunder with hwork | hstart
      · exact hs.started t (mem_of_getElem? ht) hwave hwork
      · exact hstart.2.1 hwave
  · refine ⟨u, ?_, rfl, fun _ => rfl, fun _ hne => absurd rfl hne⟩
    simp only [Store.withTarget]
    rw [getElem?_set_ne hij, hu]

theorem moves_step (c : Statement) (hc : Condition c s) (hs : Invariant s) :
    Moves s (Store.step c s).2 := by
  cases c with
  | active | campaign | targets | lockForLaunch | setState => exact moves_of_eq rfl
  | update i copy next code => exact moves_writeTarget hs (fun _ => ⟨rfl, rfl⟩) hc
  | launch i copy next =>
    refine iteInduction (motive := fun r => Moves s (Prod.snd r)) (fun hlaunching => ?_) fun _ => moves_of_eq rfl
    exact moves_writeTarget hs (fun _ => ⟨rfl, rfl⟩) (hc hlaunching)
  | writeState copy next =>
    apply moves_of_eq
    change (s.writeState copy next).2.targets = s.targets
    unfold Store.writeState
    split <;> rfl
  | finishPlanning next =>
    apply moves_of_eq
    change (if s.campaign.state = .planning then (true, s.withState next)
      else (false, s)).2.targets = s.targets
    split <;> rfl
  | claimWave wave free limit => exact moves_of_ahead (Store.ahead_claimWave hc wave free limit)

theorem moves_of_step {x y : Pass Unit × Store} (hx : Reached x) (h : Rollout.Step x y) :
    Moves x.2 y.2 := by
  obtain ⟨hs, hsafe⟩ := reached_safe hx
  cases h with
  | other h => exact moves_of_ahead (.of_other h)
  | start => exact moves_of_eq rfl
  | @command c k s => exact moves_step c (hsafe s .refl).1 hs

/-- **The barrier of a rollout.**  In one step of any run, between any two statements of
which operators may act: a finished target keeps its state; a target of a wave above zero moves to
dispatched or running only when every target of wave zero is finished and, where the order asked for
a manual gate, the gate was advanced; and the targets under way stay within the limit. -/
theorem rollout_barrier {x y : Pass Unit × Store} (hx : Reached x) (hstep : Rollout.Step x y) :
    (∀ (i : Nat) (t : Target), x.2.targets[i]? = some t →
      ∃ u, y.2.targets[i]? = some u ∧ u.wave = t.wave ∧
      (t.state.finished = true → u.state = t.state) ∧
      (0 < t.wave → u.state ≠ t.state → (u.state = .dispatched ∨ u.state = .running) →
        (∀ r ∈ x.2.targets, r.wave = 0 → r.state.finished = true) ∧
        (x.2.campaign.order.manualGate = true → x.2.campaign.gateAdvanced = true))) ∧
      underWayTargets y.2.targets ≤ y.2.campaign.order.maxConcurrent := by
  refine ⟨fun i t ht => ?_, (reached_safe (hx.step hstep)).1.bound⟩
  obtain ⟨u, hu, hmoves⟩ := moves_of_step hx hstep i t ht
  refine ⟨u, hu, hmoves.wave, hmoves.finished, fun hwave hne hstate => ?_⟩
  have hunder : u.state.underWay = true := by
    rcases hstate with h | h <;> rw [h] <;> rfl
  obtain ⟨hcanary, hgate⟩ := hmoves.started hwave hne hunder
  refine ⟨fun r hr hzero => hcanary r (mem_filter.mpr ⟨hr, by simpa using hzero⟩), ?_⟩
  intro hmanual
  rcases hgate with h | ⟨h, _⟩
  · exact h
  · rw [hmanual] at h
    cases h

/-! ### A run through the canary -/

/-- An order with a canary of one host and one host at a time. -/
def smallOrder (gate : Bool) : Order :=
  { canarySize := 1
    maxConcurrent := 1
    failureThresholdPercent := 50
    failureThresholdAbsolute := 0
    connectivityLostAbsolute := 0
    offlinePolicy := .wait
    rebootPolicy := .never
    healthChecks := false
    manualGate := gate
    requiresApproval := false
    remediation := false
    panelPlanned := false
    planner := false }

/-- Two hosts, the first of which is the canary. -/
def smallCampaign (gate : Bool) : Store :=
  { campaign :=
      { order := smallOrder gate
        state := .planned
        gateAdvanced := false
        started := false
        revision := 1 }
    targets := [placed 0 .pending .none, placed 1 .pending .none] }

/-- Every host is there, and every task that was started has succeeded. -/
def smoothHost : HostFacts :=
  { mainTask := .ended .succeeded .none none (some ⟨false, false, false⟩)
    remediation := .running
    reboot := .ordered
    health := .ordered
    rebooting := .back
    verification := .succeeded
    replan := .waiting
    queueHost := .online
    replanTask := .created
    claimFree := true
    leaseKept := true
    host := .online
    rights := .held
    maintenance := false
    budget := .free
    task := .created
    remediationStart := .created
    recheckHost := .online
    planHost := .online
    planTask := .created
    plan := .waiting
    mapped := .mapped }

def smoothFacts : Facts :=
  { plansExpired := some false
    capacity := .held
    withinWindow := true
    pastDeadline := fun _ => false
    payloadReads := true
    mappingReads := true
    plans := some 1
    host := fun _ => smoothHost }

theorem created_smallCampaign (gate : Bool) : Created (smallCampaign gate) := by
  cases gate <;> exact .create (smallOrder _) false 1 2 [] (by simp)

theorem starts_smooth : Rollout.Starts (Pass.advance smoothFacts) := ⟨smoothFacts, rfl⟩

def smallStarted (gate : Bool) : Store :=
  (Rollout.commands 6 (Pass.advance smoothFacts, smallCampaign gate)).2

theorem reached_smallStarted (gate : Bool) : Reached (.ret (), smallStarted gate) := by
  have hpass : Reached (Rollout.commands 6 (Pass.advance smoothFacts, smallCampaign gate)) :=
    ((Interleaving.Reachable.first (created_smallCampaign gate)).step
      (.start starts_smooth)).commands 6
  have hend : Rollout.commands 6 (Pass.advance smoothFacts, smallCampaign gate) =
      (.ret (), smallStarted gate) := by
    cases gate <;> rfl
  exact hpass

/-- The next pass after its first `n` statements. -/
def smallRun (gate : Bool) (n : Nat) : Pass Unit × Store :=
  Rollout.commands n (Pass.advance smoothFacts, smallStarted gate)

theorem reached_smallRun (gate : Bool) (n : Nat) : Reached (smallRun gate n) :=
  ((reached_smallStarted gate).step (.start starts_smooth)).commands n

/-- The second host is started in the pass that finds the canary finished. -/
theorem rollout_barrier_second_host :
    ((smallRun false 6).2.targets.map Target.state = [.succeeded, .pending] ∧
      (smallRun false 7).2.targets.map Target.state = [.succeeded, .dispatched]) ∧
      underWayTargets (smallRun false 7).2.targets ≤ (smallRun false 7).2.campaign.order.maxConcurrent :=
  ⟨by decide, (rollout_barrier (reached_smallRun false 6) (y := smallRun false 7) .command).2⟩

/-- **Hosts wait their turn.**  In every state of every run: a host outside the waves is settled; while
the hosts plan none of them has a task; and a host of a wave has a task, or in an open campaign has left
the queue after the planning, only when the canary is finished and no gate stands. -/
theorem hosts_wait_their_turn {x : Pass Unit × Store} (hx : Reached x) :
    (∀ t ∈ x.2.targets, t.wave < 0 → t.state.finished = true) ∧
    (x.2.campaign.state = .planning →
      ∀ t ∈ x.2.targets, t.state.underWay = false ∧ t.state ≠ .awaitingBudget) ∧
    ∀ t ∈ x.2.targets, 0 < t.wave → (t.state.underWay = true ∨ t.state.aside = true ∧
      x.2.campaign.state.closed = false ∧ x.2.campaign.state ≠ .planning) → x.2.Opened := by
  obtain ⟨hs, -⟩ := reached_safe hx
  refine ⟨hs.outside, hs.planning, fun t ht hwave hleft => ?_⟩
  rcases hleft with hunder | ⟨haside, hopen, hplanned⟩
  · exact hs.started t ht hwave hunder
  · exact hs.queued hopen hplanned t ht hwave haside

theorem hosts_wait_their_turn_second_host : (smallRun false 7).2.Opened :=
  (hosts_wait_their_turn (reached_smallRun false 7)).2.2 _
    (getElem_mem (show 1 < (smallRun false 7).2.targets.length by decide)) (by decide)
    (.inl (by decide))

/-! ## The requests of a pass -/

/-- **The requests of a pass are legal.**  A call of `SetState` with the campaign as it
stands asks for a transition that is allowed from there; an attempt of it that finds the campaign as
it was read writes an allowed transition; and a campaign at its manual gate has a target that is not
finished, so it never has to be completed from there. -/
theorem requests_are_legal {x : Pass Unit × Store} (hx : Reached x) :
    (∀ c next k, x.1 = .call (.setState c next) k → c.revision = x.2.campaign.revision →
      c.state = x.2.campaign.state ∧ x.2.campaign.state.mayBecome next = true) ∧
    (∀ c next k, x.1 = .call (.writeState c next) k → c.revision = x.2.campaign.revision →
      x.2.campaign.state.mayBecome next = true) ∧
    (x.2.campaign.state = .manualGate → allFinished x.2.targets = false) := by
  obtain ⟨hs, hsafe⟩ := reached_safe hx
  refine ⟨?_, ?_, ?_⟩
  · intro c next k heq hrev
    rw [heq] at hsafe
    obtain ⟨hstate, hmay⟩ := (hsafe x.2 .refl).1 hrev
    exact ⟨hstate, by rw [← hstate]; exact hmay⟩
  · intro c next k heq hrev
    rw [heq] at hsafe
    exact ((hsafe x.2 .refl).1 hrev).1
  · intro hgate
    obtain ⟨t, ht, _, hpending⟩ := (hs.gate hgate).2
    rw [← Bool.not_eq_true]
    intro hall
    have hfin := all_eq_true.mp hall t ht
    rw [hpending] at hfin
    cases hfin

/-- The pass that finds the canary finished asks for the phase of the waves. -/
theorem requests_are_legal_second_phase : (smallRun false 3).2.campaign.state = .canary ∧
      (smallRun false 3).2.campaign.state.mayBecome .running = true :=
  ⟨by decide, ((requests_are_legal (reached_smallRun false 3)).1 _ .running _ rfl rfl).2⟩

/-- A pass that has read the campaign at its gate, when a cancel comes before it reads the
targets. -/
def smallOvertaken : Pass Unit × Store :=
  let atGate := (smallRun true 5).2
  let reading := Rollout.commands 1 (Pass.advance smoothFacts, atGate)
  Rollout.commands 1 (reading.1, reading.2.cancel fun _ => false)

theorem reached_smallOvertaken : Reached smallOvertaken := by
  have hgate : Reached (.ret (), (smallRun true 5).2) := reached_smallRun true 5
  have hreading := (hgate.step (.start starts_smooth)).commands 1
  exact (hreading.step (.other (.cancel _ _))).commands 1

/-- The pass asks for a campaign that was canceled meanwhile to be completed, and from the
gate where it read the campaign that is not allowed either. -/
theorem overtaken_pass_asks_in_vain :
    ∃ x, Reached x ∧ ∃ c k, x.1 = .call (.setState c .completed) k ∧
      x.2.campaign.state = .canceled ∧ x.2.campaign.state.mayBecome .completed = false ∧
      c.state = .manualGate ∧ c.state.mayBecome .completed = false :=
  ⟨smallOvertaken, reached_smallOvertaken, _, _, rfl, rfl, rfl, rfl, rfl⟩

end Flotestro.Campaigns
