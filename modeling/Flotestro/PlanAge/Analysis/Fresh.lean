import Flotestro.PlanAge.Model.Planning

/-!
# Plans that are not stale

`createJob` measures the age of a plan from its record, and every pass of the planning phase makes the
record anew.  With a bound on how late a plan is recorded, and no main task asked for in the last
moments of a record's age, every main task rests on a planning task that ended within `PlanTTL`.
-/

set_option autoImplicit false

namespace Flotestro.PlanAge

open Library List

variable {δ : Type}

namespace Target

/-- The end of the planning task whose plan a visit records. -/
def saves (t : Target δ) : Option Int :=
  if (t.state = .pending ∨ t.state = .planning) ∧ t.planJobId then
    match t.job.bind Job.ended with
    | some (ended, .plan _ .change) | some (ended, .plan _ .noChange) => some ended
    | _ => none
  else none

/-- The end of the planning task whose plan is recorded after a host was planned again. -/
def resaves [DecidableEq δ] (t : Target δ) : Option Int :=
  if t.state = .planning ∧ t.planJobId then
    match t.job.bind Job.ended with
    | some (ended, .plan digest .change) =>
      if t.plan.map HostPlan.digest = some digest then some ended else none
    | _ => none
  else none

/-- The plan on record is in the result of a planning task, and was recorded at most the
delay after the task ended. -/
def Dated (delay : Int) (t : Target δ) : Prop :=
  ∀ p ∈ t.plan, ∃ ended, t.Holds p.digest ended ∧ p.computedAt - ended ≤ delay

/-- The results of the planning tasks stay. -/
def Kept (t t' : Target δ) : Prop := ∀ digest ended, t.Holds digest ended → t'.Holds digest ended

variable {delay now : Int} {t t' : Target δ}

theorem Kept.of_same (hjob : t'.job = t.job) (hearlier : t'.earlier = t.earlier) : t.Kept t' := by
  rintro digest ended ⟨verdict, hmem⟩
  exact ⟨verdict, by rwa [hjob, hearlier]⟩

theorem Dated.of_kept (h : t.Dated delay) (hplan : t'.plan = t.plan) (hkept : t.Kept t') :
    t'.Dated delay := by
  intro p hp
  obtain ⟨ended, hended, hle⟩ := h p (hplan ▸ hp)
  exact ⟨ended, hkept _ _ hended, hle⟩

/-- What every change of a target but a record of a plan is. -/
structure Same (t t' : Target δ) : Prop where
  plan : t'.plan = t.plan
  kept : t.Kept t'

theorem Same.of_state (t : Target δ) (state : TargetState) : t.Same { t with state := state } :=
  ⟨rfl, .of_same rfl rfl⟩

theorem Same.refl (t : Target δ) : t.Same t := ⟨rfl, .of_same rfl rfl⟩

theorem orderPlan_same (t : Target δ) (facts : Facts) : t.Same (t.orderPlan facts) := by
  unfold orderPlan
  split
  · exact .of_state t _
  split
  · split <;> exact .of_state t _
  split
  · exact .of_state t _
  refine ⟨rfl, ?_⟩
  rintro digest ended ⟨verdict, hmem⟩
  refine ⟨verdict, ?_⟩
  cases hjob : t.job with
  | none =>
    rw [hjob] at hmem
    exact mem_cons_of_mem _ hmem
  | some job =>
    rw [hjob] at hmem
    exact hmem

theorem recheckOffline_same (t : Target δ) (facts : Facts) : t.Same (t.recheckOffline facts) := by
  unfold recheckOffline
  split
  · exact .of_state t _
  split
  · split
    · exact .refl t
    · exact .of_state t _
  · have hordered := orderPlan_same { t with state := .pending } facts
    exact ⟨hordered.plan, hordered.kept⟩

/-- The task that is replaced stays among the earlier ones. -/
theorem serviceOffline_same (t : Target δ) (facts : Facts) (replans : Bool) :
    t.Same (t.serviceOffline facts replans) := by
  unfold serviceOffline
  split
  · exact .refl t
  split
  · exact .of_state t _
  split
  · split
    · exact .refl t
    · exact .of_state t _
  · split
    · unfold replanTarget
      split
      · exact .of_state t _
      · refine ⟨rfl, ?_⟩
        rintro digest ended ⟨verdict, hmem⟩
        exact ⟨verdict, mem_cons_of_mem _ hmem⟩
    · exact .of_state t _

theorem holds_of_ended {digest : δ} {ended : Int} {verdict : Verdict}
    (h : t.job.bind Job.ended = some (ended, .plan digest verdict)) : t.Holds digest ended := by
  obtain ⟨job, hjob, hended⟩ := Option.bind_eq_some_iff.mp h
  refine ⟨verdict, mem_append_left _ ?_⟩
  rw [hjob, ← hended]
  exact mem_singleton.mpr rfl

/-- A plan that may be recorded at the moment. -/
def Timely (delay now : Int) (t : Target δ) : Prop := ∀ ended ∈ t.saves, now - ended ≤ delay

/-- What every timely change of a target leaves. -/
structure Next (delay : Int) (t t' : Target δ) : Prop where
  kept : t.Kept t'
  dated : t'.Dated delay

theorem Dated.next (h : t.Dated delay) (hsame : t.Same t') : Next delay t t' :=
  ⟨hsame.kept, h.of_kept hsame.plan hsame.kept⟩

theorem next_savePlan {digest : δ} {ended : Int} {verdict : Verdict} (state : TargetState)
    (hend : t.job.bind Job.ended = some (ended, .plan digest verdict)) (hle : now - ended ≤ delay) :
    Next delay t { t.savePlan digest now with state := state } := by
  refine ⟨.of_same rfl rfl, fun p hp => ?_⟩
  cases hp
  exact ⟨ended, holds_of_ended hend, hle⟩

theorem next_collectPlan (h : t.Dated delay)
    (hvisited : (t.state = .pending ∨ t.state = .planning) ∧ t.planJobId)
    (htimely : t.Timely delay now) : Next delay t (t.collectPlan now).1 := by
  cases hend : t.job.bind Job.ended with
  | none =>
    simp only [collectPlan, hend]
    exact h.next (.refl t)
  | some e =>
    obtain ⟨ended, outcome⟩ := e
    cases outcome with
    | failed | noDigest =>
      simp only [collectPlan, hend]
      exact h.next (.of_state t _)
    | plan digest verdict =>
      cases verdict with
      | refused =>
        simp only [collectPlan, hend]
        exact h.next (.of_state t _)
      | noChange | change =>
        simp only [collectPlan, hend]
        refine next_savePlan _ hend (htimely ended ?_)
        rw [saves, if_pos hvisited, hend]
        rfl

theorem next_visit (facts : Facts) (h : t.Dated delay) (htimely : t.Timely delay now) :
    Next delay t (t.visit facts now).1 := by
  unfold visit
  split
  · exact h.next (.refl t)
  next hstate =>
    split
    next hjob => exact next_collectPlan h ⟨.inl hstate, hjob⟩ htimely
    · exact h.next (orderPlan_same t facts)
  next hstate =>
    split
    next hjob => exact next_collectPlan h ⟨.inr hstate, hjob⟩ htimely
    · exact h.next (.refl t)
  · exact h.next (recheckOffline_same t facts)
  · exact h.next (.refl t)

theorem next_afterReplan [DecidableEq δ] (h : t.Dated delay)
    (htimely : ∀ ended ∈ t.resaves, now - ended ≤ delay) : Next delay t (t.afterReplan now) := by
  unfold afterReplan
  split
  next hvisited =>
    split
    · exact h.next (.refl t)
    next ended digest hend =>
      split
      next hsame =>
        refine next_savePlan _ hend (htimely ended ?_)
        simp only [resaves, if_pos hvisited, hend, if_pos hsame]
        rfl
      · exact h.next (.of_state t _)
    · exact h.next (.of_state t _)
  · exact h.next (.refl t)

end Target

namespace World

/-- A plan is recorded at most the delay after its planning task ended, and `createJob` does not
meet a record in the last moments of its age, as many as the delay.  The test of `createJob` is
what stops the older ones. -/
def Timely [DecidableEq δ] (delay : Int) : Event δ → World δ → Prop
  | .visit _, w => ∀ pass ∈ w.pass, ∀ t ∈ w.targets[pass.next]?, ∀ ended ∈ t.saves, w.now - ended ≤ delay
  | .afterReplan i, w => ∀ t ∈ w.targets[i]?, ∀ ended ∈ t.resaves, w.now - ended ≤ delay
  | .createJob i, w =>
    ∀ t ∈ w.targets[i]?, ∀ p ∈ t.plan,
      w.now - p.computedAt ≤ planTTL - delay ∨ planTTL < w.now - p.computedAt
  | _, _ => True

instance decidableTimely [DecidableEq δ] (delay : Int) (e : Event δ) (w : World δ) :
    Decidable (Timely delay e w) := by
  cases e <;> unfold Timely <;> infer_instance

/-- **What every timely event preserves**. -/
structure Inv (delay : Int) (w : World δ) : Prop where
  dated : ∀ t ∈ w.targets, t.Dated delay
  fresh : w.FreshPlans

theorem inv_created (delay : Int) (requiresApproval replans : Bool) (hosts : Nat) :
    (created requiresApproval replans hosts : World δ).Inv delay where
  dated t ht p hp := by
    rw [(mem_replicate.mp ht).2] at hp
    cases hp
  fresh s hs := by cases hs

variable {w w' : World δ} {delay : Int} {i : Nat} {f : Target δ → Target δ}

theorem inv_of_same (h : w.Inv delay) (htargets : w'.targets = w.targets)
    (hsubmitted : w'.submitted = w.submitted) : w'.Inv delay := by
  refine ⟨htargets ▸ h.dated, fun s hs => ?_⟩
  obtain ⟨ended, ⟨t, ht, hholds⟩, hle⟩ := h.fresh s (hsubmitted ▸ hs)
  exact ⟨ended, ⟨t, htargets ▸ ht, hholds⟩, hle⟩

theorem setTarget_get (w : World δ) (i k : Nat) (f : Target δ → Target δ) :
    (w.setTarget i f).targets[k]? = (w.targets[k]?).map (if i = k then f else id) := by
  simp only [setTarget, getElem?_modify]
  split <;> rfl

/-- The rule for an event over one target. -/
theorem inv_setTarget (h : w.Inv delay) (hf : ∀ t, w.targets[i]? = some t → Target.Next delay t (f t)) :
    (w.setTarget i f).Inv delay := by
  constructor
  · intro t ht
    obtain ⟨k, hk⟩ := getElem?_of_mem ht
    rw [setTarget_get] at hk
    obtain ⟨t₀, ht₀, rfl⟩ := Option.map_eq_some_iff.mp hk
    split
    next hik =>
      subst hik
      exact (hf t₀ ht₀).dated
    · exact h.dated t₀ (mem_of_getElem? ht₀)
  · intro s hs
    obtain ⟨ended, ⟨t, ht, hholds⟩, hle⟩ := h.fresh s hs
    refine ⟨ended, ⟨_, by rw [setTarget_get, ht]; rfl, ?_⟩, hle⟩
    split
    next hik =>
      subst hik
      exact (hf t ht).kept _ _ hholds
    · exact hholds

/-- A change of a target that records no plan. -/
theorem inv_setTarget_same (h : w.Inv delay) (hf : ∀ t : Target δ, t.Same (f t)) :
    (w.setTarget i f).Inv delay :=
  inv_setTarget h fun t ht => (h.dated t (mem_of_getElem? ht)).next (hf t)

theorem finishPlanning_frame (w : World δ) :
    w.finishPlanning.targets = w.targets ∧ w.finishPlanning.submitted = w.submitted := by
  unfold finishPlanning
  split
  · exact ⟨rfl, rfl⟩
  · split <;> exact ⟨rfl, rfl⟩

/-- A main task is submitted with the plan on record, within the time left; a plan that is
older ends the host. -/
theorem inv_createJob {t : Target δ} {p : HostPlan δ} (h : w.Inv delay) (ht : w.targets[i]? = some t)
    (hp : t.plan = some p)
    (htimely : w.now - p.computedAt ≤ planTTL - delay ∨ planTTL < w.now - p.computedAt) :
    (w.createJob i p).Inv delay := by
  unfold createJob
  split
  · exact inv_setTarget_same h fun t => .of_state t _
  have hyoung := htimely.resolve_right ‹_›
  have hset : (w.setTarget i fun t => { t with state := .launched }).Inv delay :=
    inv_setTarget_same h fun t => .of_state t _
  refine ⟨hset.dated, forall_mem_concat hset.fresh ?_⟩
  obtain ⟨ended, hholds, hle⟩ := h.dated t (mem_of_getElem? ht) p hp
  refine ⟨ended, ⟨_, by simp only [setTarget_get, ht]; rfl, ?_⟩, ?_⟩
  · exact hholds
  · dsimp only
    omega

theorem inv_jobEnds {t : Target δ} (outcome : Outcome δ) (h : w.Inv delay)
    (ht : w.targets[i]? = some t) (hjob : t.job = some ⟨none⟩) :
    (w.setTarget i fun t => { t with job := some ⟨some (w.now, outcome)⟩ }).Inv delay := by
  refine inv_setTarget h fun t' ht' => ?_
  obtain rfl := Option.mem_unique ht ht'
  have hkept : t.Kept { t with job := some ⟨some (w.now, outcome)⟩ } := by
    rintro digest ended ⟨verdict, hmem⟩
    rw [hjob] at hmem
    -- a task that has not ended has no result
    rcases mem_cons.mp hmem with heq | hmem
    · cases heq
    · exact ⟨verdict, mem_cons_of_mem _ hmem⟩
  exact (h.dated t (mem_of_getElem? ht)).next ⟨rfl, hkept⟩

theorem inv_step [DecidableEq δ] {e : Event δ} (hstep : step e w = some w') (hc : Timely delay e w)
    (h : w.Inv delay) : w'.Inv delay := by
  cases e with
  | tick d | passBreaks | cancel =>
    cases hstep
    exact inv_of_same h rfl rfl
  | jobEnds i outcome =>
    simp only [step] at hstep
    split at hstep
    next ht =>
      cases hstep
      exact inv_jobEnds outcome h ht rfl
    · cases hstep
  | passBegins | approve | start | pause | resume | expire =>
    obtain ⟨-, rfl⟩ := of_guard hstep
    exact inv_of_same h rfl rfl
  | visit facts =>
    simp only [step] at hstep
    split at hstep
    · cases hstep
    next pass hpass =>
      split at hstep
      · cases hstep
      next t ht =>
        cases hstep
        refine inv_of_same
          (inv_setTarget h fun t' ht' => ?_) (set_eq_modify _ _ _) rfl
        obtain rfl := Option.mem_unique ht ht'
        exact Target.next_visit facts (h.dated t (mem_of_getElem? ht)) (hc pass hpass t ht)
  | passEnds =>
    simp only [step] at hstep
    split at hstep
    · cases hstep
    split at hstep
    · split at hstep
      · cases hstep
        exact inv_of_same h rfl rfl
      · cases hstep
        obtain ⟨htargets, hsubmitted⟩ := finishPlanning_frame { w with pass := none }
        exact inv_of_same h htargets hsubmitted
    · cases hstep
  | away i =>
    obtain ⟨-, rfl⟩ := of_guard hstep
    refine inv_setTarget_same h fun t => ?_
    split
    · exact .of_state t _
    · exact .refl t
  | serviceOffline i facts =>
    obtain ⟨-, rfl⟩ := of_guard hstep
    exact inv_setTarget_same h fun t => t.serviceOffline_same facts w.replans
  | afterReplan i =>
    obtain ⟨-, rfl⟩ := of_guard hstep
    exact inv_setTarget h fun t ht =>
      Target.next_afterReplan (h.dated t (mem_of_getElem? ht)) (hc t ht)
  | createJob i =>
    simp only [step] at hstep
    split at hstep
    next p ht =>
      obtain ⟨-, rfl⟩ := of_guard hstep
      exact inv_createJob h ht rfl (hc _ ht p rfl)
    · cases hstep

/-- **In a run whose events are all timely for some delay, every main task carries a plan
whose planning task ended at most `PlanTTL` before**. -/
theorem main_tasks_have_fresh_plans [DecidableEq δ] {delay : Int} {requiresApproval replans : Bool}
    {hosts : Nat} {es : List (Event δ)} {w : World δ}
    (htimely : meets step (Timely delay) es (created requiresApproval replans hosts))
    (hrun : run step es (created requiresApproval replans hosts) = some w) : w.FreshPlans := by
  have h : w.Inv delay := run_inv_of_meets (I := Inv delay)
    inv_step htimely hrun
    (inv_created delay requiresApproval replans hosts)
  exact h.fresh

/-- A host that is there and takes its planning task. -/
def present : Facts := ⟨true, true, true, true⟩

/-- A host that is waited for. -/
def absent : Facts := ⟨true, false, true, true⟩

/-- Two hosts are planned, the first goes away for a day and is planned again; the plan of the
second has expired by then. -/
theorem main_tasks_have_fresh_plans_replanned : ∃ (es : List (Event Nat)) (w : World Nat),
      meets step (Timely 600) es (created true true 2) ∧
      run step es (created true true 2) = some w ∧ w.submitted = [⟨0, 7, 87400⟩] ∧
      w.FreshPlans := by
  let es : List (Event Nat) := [.passBegins, .visit present, .visit present, .passEnds, .tick 100,
    .jobEnds 0 (.plan 7 .change), .jobEnds 1 (.plan 8 .change), .tick 300, .passBegins,
    .visit present, .visit present, .passEnds, .approve, .start, .away 0, .tick 86400,
    .serviceOffline 0 present, .jobEnds 0 (.plan 7 .change), .tick 600, .afterReplan 0,
    .createJob 0, .createJob 1]
  have htimely : meets step (Timely 600) es (created true true 2) := by decide
  exact ⟨es, _, htimely, rfl, rfl, main_tasks_have_fresh_plans htimely rfl⟩

/-- **A change starts on a plan of the day before**: while the second host is away, every
pass records the plan of the first anew.  SOURCE: planning.go:44-59, store.go:806-819 -/
theorem starts_on_stale_plan : ∃ (es : List (Event Nat)) (w : World Nat),
      run step es (created true false 2) = some w ∧ w.submitted = [⟨0, 7, 90010⟩] ∧
      w.EndedWith 0 7 10 ∧ ¬ w.FreshPlans := by
  refine ⟨[.passBegins, .visit present, .visit absent, .passEnds, .tick 10,
    .jobEnds 0 (.plan 7 .change), .passBegins, .visit present, .visit absent, .passEnds,
    .tick 90000, .passBegins, .visit present, .visit present, .passEnds,
    .jobEnds 1 (.plan 8 .change), .passBegins, .visit present, .visit present, .passEnds, .approve,
    .start, .createJob 0], _, rfl, rfl, ⟨_, rfl, .change, mem_singleton.mpr rfl⟩, fun h => ?_⟩
  obtain ⟨ended, ⟨t, ht, verdict, hmem⟩, hle⟩ := h _ mem_cons_self
  cases ht
  cases mem_singleton.mp hmem
  cases hle

end World

end Flotestro.PlanAge
