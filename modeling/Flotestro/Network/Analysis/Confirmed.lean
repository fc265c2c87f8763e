import Flotestro.Network.Model.Rollback

/-!
# Confirmed changes

`confirmChange` reads the plan before it stops the unit, so by then the process may have run part of
the way back.  When it stops the service before any step was run, a confirmed change was not rolled back
and will not be: the guard keeps a `rollbackNow` out until the file is removed.
-/

set_option autoImplicit false

namespace Flotestro.Network

open Library

namespace World

/-- `confirmChange` stops the service before any step was run. -/
def InTime : Event → World → Prop
  | .proceed, w => w.held = some (.confirm .timerStopped) → w.ran = 0
  | _, _ => True

instance decidableInTime (e : Event) (w : World) : Decidable (InTime e w) := by
  cases e <;> unfold InTime <;> infer_instance

/-- The change is confirmed, or the service was stopped for it. -/
def Disarmed (w : World) : Prop :=
  w.confirmed = true ∨ w.held = some (.confirm .serviceStopped) ∨ w.held = some (.confirm .removed)

/-- Nothing is left of the unit that could run a step, and none was run. -/
structure Quiet (w : World) : Prop where
  ran : w.ran = 0
  timer : w.timer ≠ .armed
  process : w.process = .idle ∨ w.process = .ended

/-- **What every event in time preserves**. -/
structure Inv (w : World) : Prop where
  stopped : w.held = some (.confirm .timerStopped) → w.timer ≠ .armed
  quiet : w.Disarmed → w.Quiet
  removed : w.confirmed = true ∨ w.held = some (.confirm .removed) → w.plan = false
  kept : w.confirmed = true → ∀ k, w.held ≠ some (.rollback (.running k))

theorem inv_saved (steps : Option Nat) : (saved steps).Inv where
  stopped := nofun
  quiet h := by rcases h with h | h | h <;> cases h
  removed h := by rcases h with h | h <;> cases h
  kept := nofun

variable {w w' : World}

theorem stopTimer_timer (w : World) : w.stopTimer.timer ≠ .armed := by
  unfold stopTimer
  split
  · simp
  next h => exact h

/-- The stop of the timer changes nothing else. -/
theorem stopTimer_frame (w : World) : w.stopTimer.confirmed = w.confirmed ∧
    w.stopTimer.ran = w.ran ∧ w.stopTimer.process = w.process ∧ w.stopTimer.plan = w.plan := by
  unfold stopTimer
  split <;> exact ⟨rfl, rfl, rfl, rfl⟩

theorem stopService_process (w : World) :
    w.stopService.process = .idle ∨ w.stopService.process = .ended := by
  unfold stopService
  split
  next h => exact .inl h
  · exact .inr rfl

/-- The stop of the service changes nothing else. -/
theorem stopService_frame (w : World) : w.stopService.confirmed = w.confirmed ∧
    w.stopService.ran = w.ran ∧ w.stopService.timer = w.timer ∧ w.stopService.plan = w.plan := by
  unfold stopService
  split <;> exact ⟨rfl, rfl, rfl, rfl⟩

/-! ## A call goes on -/

/-- The rule for a call that goes on to a position from which it runs no step and where it has stopped
nothing for a confirmation: what else it changes keeps a quiet world quiet and a removed plan removed. -/
theorem inv_onward (h : w.Inv) (hconfirmed : w'.confirmed = w.confirmed) (hplan : w.plan = false → w'.plan = false)
    (hquiet : w.Quiet → w'.Quiet) (hrolls : ∀ k, w'.held ≠ some (.rollback (.running k)))
    (hconfirms : ∀ c, w'.held = some (.confirm c) → c = .called ∨ c = .loaded) : w'.Inv := by
  refine ⟨fun hheld => ?_, fun hdisarmed => ?_, fun hremoved => ?_, fun _ => hrolls⟩
  · rcases hconfirms _ hheld with h | h <;> cases h
  · rcases hdisarmed with hc | hheld | hheld
    · exact hquiet (h.quiet (.inl (hconfirmed ▸ hc)))
    all_goals rcases hconfirms _ hheld with h | h <;> cases h
  · rcases hremoved with hc | hheld
    · exact hplan (h.removed (.inl (hconfirmed ▸ hc)))
    · rcases hconfirms _ hheld with h | h <;> cases h

theorem inv_hold {call : Call} (h : w.Inv) (hcall : call = .confirm .called ∨ call = .rollback .called) :
    (w.hold call).Inv := by
  unfold hold
  split
  · exact h
  · refine inv_onward h rfl id (fun hquiet => { hquiet with }) (fun k hheld => ?_) fun c hheld => ?_
    · rcases hcall with rfl | rfl <;> cases hheld
    · rcases hcall with rfl | rfl <;> cases hheld
      exact .inl rfl

theorem quiet_stopTimer (h : w.Quiet) (held : Option Call) :
    ({ w.stopTimer with held := held } : World).Quiet := by
  obtain ⟨-, hran, hprocess, -⟩ := stopTimer_frame w
  exact ⟨hran.trans h.ran, stopTimer_timer w, hprocess ▸ h.process⟩

theorem quiet_stopService (hran : w.ran = 0) (htimer : w.timer ≠ .armed) (held : Option Call) :
    ({ w.stopService with held := held } : World).Quiet := by
  obtain ⟨-, hran', htimer', -⟩ := stopService_frame w
  exact ⟨hran'.trans hran, htimer' ▸ htimer, stopService_process w⟩

theorem inv_confirmStep {c : Confirm} (h : w.Inv) (hheld : w.held = some (.confirm c))
    (hc : InTime .proceed w) : (w.confirmStep c).Inv := by
  cases c with
  | called =>
    refine inv_onward h rfl id (fun hquiet => { hquiet with }) (fun k hheld => ?_) fun c hheld => ?_
    · unfold confirmStep at hheld
      dsimp only at hheld
      split at hheld <;> cases hheld
    · unfold confirmStep at hheld
      dsimp only at hheld
      split at hheld <;> cases hheld
      exact .inr rfl
  | loaded =>
    obtain ⟨hconfirmed, -, -, hplan⟩ := stopTimer_frame w
    refine ⟨fun _ => stopTimer_timer w, fun hdisarmed => ?_, fun hremoved => ?_, nofun⟩
    · rcases hdisarmed with hc | hheld | hheld
      · exact quiet_stopTimer (h.quiet (.inl (hconfirmed ▸ hc))) _
      · cases hheld
      · cases hheld
    · rcases hremoved with hc | hheld
      · exact hplan.trans (h.removed (.inl (hconfirmed ▸ hc)))
      · cases hheld
  | timerStopped =>
    obtain ⟨hconfirmed, -, -, hplan⟩ := stopService_frame w
    refine ⟨nofun, fun _ => quiet_stopService (hc hheld) (h.stopped hheld) _, fun hremoved => ?_, nofun⟩
    rcases hremoved with hc | hheld
    · exact hplan.trans (h.removed (.inl (hconfirmed ▸ hc)))
    · cases hheld
  | serviceStopped =>
    have hquiet := h.quiet (.inr (.inl hheld))
    exact ⟨nofun, fun _ => { hquiet with }, fun _ => rfl, nofun⟩
  | removed =>
    have hquiet := h.quiet (.inr (.inr hheld))
    exact ⟨nofun, fun _ => { hquiet with }, fun _ => h.removed (.inr hheld), nofun⟩

/-- Nothing is asked of a change that is not confirmed while a `rollbackNow` holds the guard. -/
theorem inv_of_rollback (hconfirmed : w.confirmed ≠ true) {r : Rollback}
    (hheld : w.held = some (.rollback r)) : w.Inv := by
  refine ⟨?_, ?_, ?_, fun hc => absurd hc hconfirmed⟩
  · rw [hheld]
    nofun
  · rintro (hc | hc | hc)
    · exact absurd hc hconfirmed
    all_goals rw [hheld] at hc; cases hc
  · rintro (hc | hc)
    · exact absurd hc hconfirmed
    · rw [hheld] at hc
      cases hc

theorem inv_rollbackStep {r : Rollback} (h : w.Inv) (hheld : w.held = some (.rollback r)) :
    (w.rollbackStep r).Inv := by
  cases r with
  | called =>
    simp only [rollbackStep]
    split
    next k hplan _ =>
      refine inv_of_rollback (fun hc => ?_) rfl
      -- a confirmed change has no plan any more
      rw [h.removed (.inl hc)] at hplan
      cases hplan
    · exact inv_onward h rfl id (fun hquiet => { hquiet with }) nofun nofun
  | running left =>
    cases left with
    | zero =>
      obtain ⟨hconfirmed, -, -, hplan⟩ := stopTimer_frame w
      exact inv_onward h hconfirmed hplan.trans (quiet_stopTimer · _) nofun nofun
    | succ k => exact inv_of_rollback (fun hc => h.kept hc _ hheld) rfl
  | timerStopped =>
    obtain ⟨hconfirmed, -, -, hplan⟩ := stopService_frame w
    exact inv_onward h hconfirmed hplan.trans
      (fun hquiet => quiet_stopService hquiet.ran hquiet.timer _) nofun nofun
  | serviceStopped =>
    exact inv_onward h rfl (fun _ => rfl) (fun hquiet => { hquiet with }) nofun nofun

/-! ## The unit -/

/-- The rule for an event of the unit, which a stop for a confirmation rules out. -/
theorem inv_unit (h : w.Inv) (hheld : w'.held = w.held) (hconfirmed : w'.confirmed = w.confirmed)
    (htimer : w.timer ≠ .armed → w'.timer ≠ .armed) (hnot : ¬ w.Quiet) : w'.Inv := by
  have hdisarmed : ¬w.Disarmed := fun hd => hnot (h.quiet hd)
  have hsame : w'.Disarmed → w.Disarmed := by
    unfold Disarmed
    rw [hheld, hconfirmed]
    exact id
  refine ⟨fun hs => htimer (h.stopped (hheld ▸ hs)), fun hd => absurd (hsame hd) hdisarmed, ?_, ?_⟩
  · rintro (hc | hc)
    · exact absurd (hsame (.inl hc)) hdisarmed
    · exact absurd (hsame (.inr (.inr hc))) hdisarmed
  · exact fun hc => absurd (hsame (.inl hc)) hdisarmed

theorem inv_processStep (h : w.Inv) (hstep : w.processStep = some w') : w'.Inv := by
  have hnot : w.process ≠ .idle → w.process ≠ .ended → ¬ w.Quiet :=
    fun hidle hended hquiet => hquiet.process.elim hidle hended
  unfold processStep at hstep
  split at hstep
  · cases hstep
  · cases hstep
  next hprocess =>
    have hnot := hnot (by simp [hprocess]) (by simp [hprocess])
    split at hstep
    · split at hstep <;> cases hstep <;> exact inv_unit h rfl rfl id hnot
    · cases hstep
      exact inv_unit h rfl rfl id hnot
  next k hprocess =>
    cases hstep
    exact inv_unit h rfl rfl id (hnot (by simp [hprocess]) (by simp [hprocess]))
  next hprocess =>
    cases hstep
    exact inv_unit h rfl rfl id (hnot (by simp [hprocess]) (by simp [hprocess]))

theorem inv_step {e : Event} (hstep : step e w = some w') (hc : InTime e w) (h : w.Inv) :
    w'.Inv := by
  cases e with
  | fire =>
    obtain ⟨harmed, rfl⟩ := of_guard hstep
    exact inv_unit h rfl rfl (fun _ => by simp) fun hquiet => hquiet.timer harmed
  | process => exact inv_processStep h hstep
  | confirmChange =>
    cases hstep
    exact inv_hold h (.inl rfl)
  | rollbackNow =>
    cases hstep
    exact inv_hold h (.inr rfl)
  | proceed =>
    simp only [step] at hstep
    split at hstep
    next c hheld =>
      cases hstep
      exact inv_confirmStep h hheld hc
    next r hheld =>
      cases hstep
      exact inv_rollbackStep h hheld
    · cases hstep

/-- **In a run whose events are all in time, no step of the way back is run, before or
after, once a `confirmChange` has answered that the change is confirmed**. -/
theorem confirmed_change_stays {steps : Option Nat} {es : List Event} {w : World}
    (htime : meets step InTime es (saved steps)) (hrun : run step es (saved steps) = some w)
    (hconfirmed : w.confirmed = true) : w.ran = 0 := by
  have h : w.Inv := run_inv_of_meets (I := Inv) inv_step htime hrun (inv_saved steps)
  exact (h.quiet (.inl hconfirmed)).ran

/-- The process has started when the confirmation stops it; a `rollbackNow` meanwhile is refused, and
one after it finds no plan. -/
theorem confirmed_change_stays_late : ∃ (es : List Event) (w : World),
      meets step InTime es (saved (some 2)) ∧ run step es (saved (some 2)) = some w ∧
      .fire ∈ es ∧ w.confirmed = true ∧ w.held = none ∧ w.ran = 0 := by
  let es : List Event := [.confirmChange, .proceed, .fire, .process, .rollbackNow, .proceed, .proceed,
    .proceed, .proceed, .rollbackNow, .proceed]
  have htime : meets step InTime es (saved (some 2)) := by decide
  exact ⟨es, _, htime, rfl, by decide, rfl, rfl, confirmed_change_stays htime rfl rfl⟩

/-- **A change half rolled back is confirmed**: the process has run a step when
`confirmChange` loads the plan, stops it and answers.  SOURCE: network.go:392-425, 726-733 -/
theorem confirmed_after_rollback_step :
    ∃ (es : List Event) (w : World), run step es (saved (some 2)) = some w ∧
      w.confirmed = true ∧ w.ran = 1 :=
  ⟨[.fire, .process, .process, .confirmChange, .proceed, .proceed, .proceed, .proceed, .proceed], _,
    rfl, rfl, rfl⟩

end World

end Flotestro.Network
