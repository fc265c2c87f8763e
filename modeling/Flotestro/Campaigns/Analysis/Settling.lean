import Flotestro.Campaigns.Analysis.Copies

/-!
# Settling and starting hosts

The loops of a pass, one lemma for each function of the pass: from a copy the pass holds, every
statement the function issues meets its condition, and the function leaves a copy the pass holds.
-/

set_option autoImplicit false

namespace Flotestro.Campaigns

open Library

/-! ## Copies that follow one another -/

/-- A later copy of the same pass, on which no further host has a task. -/
structure Follows (m m' : Store) : Prop where
  campaign : m'.campaign = m.campaign
  waves : m'.targets.map Target.wave = m.targets.map Target.wave
  opened : m.Opened → m'.Opened
  underWay : underWayTargets m'.targets ≤ underWayTargets m.targets

namespace Follows

variable {m m' m'' : Store}

theorem refl (m : Store) : Follows m m := ⟨rfl, rfl, id, Nat.le_refl _⟩

theorem trans (h : Follows m m') (h' : Follows m' m'') : Follows m m'' where
  campaign := h'.campaign.trans h.campaign
  waves := h'.waves.trans h.waves
  opened := h'.opened ∘ h.opened
  underWay := Nat.le_trans h'.underWay h.underWay

end Follows

theorem waves_set {l : List Target} {i : Nat} {t row : Target} (ht : l[i]? = some t)
    (hwave : row.wave = t.wave) : (l.set i row).map Target.wave = l.map Target.wave := by
  obtain ⟨hi, rfl⟩ := List.getElem?_eq_some_iff.mp ht
  rw [List.map_set, hwave, ← List.getElem_map Target.wave (h := by simpa using hi),
    List.set_getElem_self]

/-- The planning of a host is settled: while the campaign plans, the host is back in the
queue or finished. -/
def Settled (s : Store) (i : Nat) : Prop :=
  s.campaign.state = .planning → ∀ t, s.targets[i]? = some t → t.state.aside = false

theorem Settled.ahead {s s' : Store} {i : Nat} (hs : Settled s i) (h : Ahead s s') :
    Settled s' i := by
  intro hplan r hr
  obtain ⟨t, ht, hrow⟩ := h.row hr
  rcases hrow.state with heq | hfin
  · rw [heq]
    exact hs (h.planning hplan) t ht
  · exact TargetState.aside_of_finished hfin

theorem Settled.withTarget {s : Store} {i j : Nat} {row : Target} (hs : Settled s j) (hij : j ≠ i) :
    Settled (s.withTarget i row) j := by
  intro hplan r hr
  simp only [Store.withTarget, List.getElem?_set_ne hij.symm] at hr
  exact hs hplan r hr

/-- What a function that settles the host `i` leaves. -/
structure Kept (m : Store) (i : Nat) (s : Store) (r : Store × Bool) (s' : Store) : Prop where
  held : Held r.1 s'
  follows : Follows m r.1
  settled : ∀ j, j ≠ i → Settled s j → Settled s' j

section

variable {m s : Store} {i : Nat} {t : Target} {outcome : Outcome} {facts : Facts}

theorem Kept.missed {s' : Store} (h : Held m s') (hs : Ahead s s') (goesOn : Bool) :
    Kept m i s (m, goesOn) s' :=
  ⟨h, .refl m, fun _ _ hj => hj.ahead hs⟩

theorem Kept.refl (h : Held m s) (i : Nat) (goesOn : Bool) : Kept m i s (m, goesOn) s :=
  .missed h (.refl s) goesOn

theorem Kept.written {s' : Store} {row : Target} (ht : m.targets[i]? = some t)
    (hwave : row.wave = t.wave) (hopen : t.state.finished = false)
    (hwork : row.state.underWay = true → t.state.underWay = true)
    (h : Held (m.withTarget i row) (s'.withTarget i row)) (hs : Ahead s s') (goesOn : Bool) :
    Kept m i s (m.withTarget i row, goesOn) (s'.withTarget i row) where
  held := h
  follows := ⟨rfl, waves_set ht hwave, fun ho => ho.withTarget ht hopen hwave, underWay_set_le ht hwork⟩
  settled _ hij hj := (hj.ahead hs).withTarget hij

section
variable (h : Held m s) (ht : m.targets[i]? = some t) (hm : CopyMovable m t outcome.1)
  (hwork : outcome.1.underWay = true → t.state.underWay = true)
include h ht hm hwork

theorem kept_updateTarget : SafePass (Pass.updateTarget m i t outcome) (Kept m i s) s := by
  apply safe_updateTarget h ht hm
  · intro s' hs' h' _
    exact .missed h' hs' _
  · intro s' row hs' hwave hstate _ hopen h'
    exact .written ht hwave hopen (by rw [hstate]; exact hwork) h' hs' _

theorem kept_finishTarget : SafePass (Pass.finishTarget m i t outcome) (Kept m i s) s := by
  refine Prog.safe_bind (kept_updateTarget h ht hm hwork) ?_
  rintro ⟨m', done⟩ s' hs'
  exact Prog.safe_pure ⟨hs'.held, hs'.follows, hs'.settled⟩

end

/-- A host may be closed by any pass but at the gate, where the waiting ones stay. -/
theorem copyMovable_finished {next : TargetState} (hnext : next.finished = true)
    (hgate : m.campaign.state = .manualGate → t.state ≠ .pending) : CopyMovable m t next where
  work hunder := by
    rw [TargetState.underWay_of_finished hnext] at hunder
    cases hunder
  queue haside := by
    rw [TargetState.aside_of_finished hnext] at haside
    cases haside
  budget _ := TargetState.ne_awaitingBudget (TargetState.aside_of_finished hnext)
  gate hm hpending := absurd hpending (hgate hm)

/-- A host may be set aside where it may wait. -/
theorem copyMovable_aside {next : TargetState} (hnext : next.underWay = false)
    (hbudget : next ≠ .awaitingBudget)
    (hqueue : 0 < t.wave → t.state.aside = true ∨ m.Opened ∨ m.campaign.state = .planning)
    (hgate : m.campaign.state = .manualGate → t.state ≠ .pending) : CopyMovable m t next where
  work hunder := by
    rw [hnext] at hunder
    cases hunder
  queue _ := hqueue
  budget _ := hbudget
  gate hm hpending := absurd hpending (hgate hm)

/-- **The rule for the end of a host.** -/
theorem kept_close (h : Held m s) (ht : m.targets[i]? = some t) (hfin : outcome.1.finished = true)
    (hgate : m.campaign.state = .manualGate → t.state ≠ .pending) :
    SafePass (Pass.finishTarget m i t outcome) (Kept m i s) s := by
  apply kept_finishTarget h ht (copyMovable_finished hfin hgate)
  intro hunder
  rw [TargetState.underWay_of_finished hfin] at hunder
  cases hunder

theorem kept_forTargets {f : Store → Nat → Pass (Store × Bool)} {C : Campaign → Prop}
    (hf : ∀ m s i, Held m s → C m.campaign → SafePass (f m i) (Kept m i s) s) (h : Held m s)
    (hC : C m.campaign) :
    SafePass (Pass.forTargets f m) (fun r s' => Held r.1 s' ∧ Follows m r.1) s := by
  refine (Prog.safe_each (J := fun _ m' s' => Held m' s' ∧ Follows m m')
    (B := fun m' s' => Held m' s' ∧ Follows m m') ?_ _ ⟨h, .refl m⟩).mono ?_
  · rintro i rest m' s' ⟨h', hfollows⟩
    refine (hf m' s' i h' (by rw [hfollows.campaign]; exact hC)).mono ?_
    rintro ⟨m'', goesOn⟩ s'' hkept
    have : Held m'' s'' ∧ Follows m m'' := ⟨hkept.held, hfollows.trans hkept.follows⟩
    cases goesOn <;> exact this
  · rintro ⟨m', goesOn⟩ s' hs'
    cases goesOn <;> exact hs'

/-- What becomes of a host that has a task: it ends or goes on with one. -/
def Carries (o : Outcome) : Prop := o.1.finished = true ∨ o.1.underWay = true

variable {o : Outcome} {f : HostFacts} {order : Order}

theorem carries_orderHealthCheck {x : Ordered} (h : orderHealthCheck x = some o) : Carries o := by
  cases x with
  | planUnread => cases h
  | hostUnavailable | refused =>
    cases h
    exact .inl rfl
  | ordered =>
    cases h
    exact .inr rfl

theorem carries_orderReboot {x : Ordered} (h : orderReboot x = some o) : Carries o := by
  cases x with
  | planUnread => cases h
  | hostUnavailable | refused =>
    cases h
    exact .inl rfl
  | ordered =>
    cases h
    exact .inr rfl

theorem finished_targetOutcome (how : JobEnd) (code : ErrorCode) (lost noChange : Bool) :
    (targetOutcome how code lost noChange).1.finished = true := by
  unfold targetOutcome
  repeat' split
  all_goals rfl

theorem carries_followJob {at_ : Standing} {same : Bool} (h : followJob t at_ same = some o) :
    Carries o := by
  unfold followJob at h
  cases at_ with
  | cancelRequested => cases h
  | awaitingLock | running | queued =>
    simp only [Option.ite_none_left_eq_some, Option.some.injEq] at h
    exact .inr (by rw [← h.2]; rfl)

theorem finished_afterRemediation {x : RemediationState} (h : afterRemediation x = some o) :
    o.1.finished = true := by
  cases x <;> cases h <;> rfl

theorem carries_afterMainJob (h : afterMainJob order t f = some o) : Carries o := by
  unfold afterMainJob at h
  split at h
  · exact .inl (finished_afterRemediation h)
  split at h
  · cases h
  · cases h
  · exact carries_followJob h
  · split at h
    · cases h
    · split at h
      · cases h
        exact .inl rfl
      · split at h
        · cases h
          exact .inl rfl
        · split at h
          · exact carries_orderReboot h
          · split at h
            · exact carries_orderHealthCheck h
            · cases h
              exact .inl rfl
  · obtain ⟨l, _, rfl⟩ := Option.map_eq_some_iff.mp h
    exact .inl (finished_targetOutcome _ _ _ _)

theorem carries_afterReboot (h : afterReboot order f = some o) : Carries o := by
  unfold afterReboot at h
  split at h
  · cases h
  · cases h
    exact .inl rfl
  · cases h
  · cases h
  · cases h
    exact .inl rfl
  · cases h
    exact .inl rfl
  · split at h
    · exact carries_orderHealthCheck h
    · cases h
      exact .inl rfl

theorem finished_afterHealthCheck (h : afterHealthCheck f = some o) : o.1.finished = true := by
  unfold afterHealthCheck at h
  split at h
  · cases h
  · split at h <;> cases h <;> rfl
  · cases h
    rfl

theorem afterReplan_state (h : afterReplan t f = some o) :
    o.1.finished = true ∨ o.1 = .pending := by
  obtain ⟨-, h⟩ := of_else h nofun
  split at h <;> cases h <;> first | exact .inl rfl | exact .inr rfl

/-- What a pass makes of a host that is not waiting. -/
theorem progressTarget_state (h : progressTarget order t f = some o) :
    t.state ≠ .pending ∧ o.1.aside = false ∧ (o.1.underWay = true → t.state.underWay = true) := by
  have hcarry : Carries o → o.1.aside = false := by
    rintro (hfin | hunder)
    · exact TargetState.aside_of_finished hfin
    · exact TargetState.aside_of_underWay hunder
  have hwork : t.state.underWay = true → Carries o → t.state ≠ .pending ∧ o.1.aside = false ∧
      (o.1.underWay = true → t.state.underWay = true) := by
    intro hunder hcarries
    refine ⟨fun hpending => ?_, hcarry hcarries, fun _ => hunder⟩
    rw [hpending] at hunder
    cases hunder
  unfold progressTarget at h
  split at h
  next hs => exact hwork (by rw [hs]; rfl) (carries_afterMainJob h)
  next hs => exact hwork (by rw [hs]; rfl) (carries_afterMainJob h)
  next hs => exact hwork (by rw [hs]; rfl) (carries_afterMainJob h)
  next hs => exact hwork (by rw [hs]; rfl) (carries_afterReboot h)
  next hs => exact hwork (by rw [hs]; rfl) (.inl (finished_afterHealthCheck h))
  next hs =>
    refine ⟨by rw [hs]; decide, ?_⟩
    rcases afterReplan_state h with hfin | hpending
    · refine ⟨TargetState.aside_of_finished hfin, fun hunder => ?_⟩
      rw [TargetState.underWay_of_finished hfin] at hunder
      cases hunder
    · rw [hpending]
      exact ⟨rfl, fun hunder => absurd hunder (by decide)⟩
  · cases h

section
variable (h : Held m s)
include h

theorem kept_progress : SafePass (Pass.progress facts m i) (Kept m i s) s := by
  unfold Pass.progress
  split
  · exact Prog.safe_pure (.refl h i _)
  next t ht =>
    split
    · exact Prog.safe_pure (.refl h i _)
    next outcome hout =>
      obtain ⟨hpending, haside, hwork⟩ := progressTarget_state hout
      apply kept_finishTarget h ht _ hwork
      exact
        { work := fun hunder => .inl (hwork hunder)
          queue := fun ha => by rw [haside] at ha; cases ha
          budget := fun _ => TargetState.ne_awaitingBudget haside
          gate := fun _ hp => absurd hp hpending }

theorem kept_closeOpen {code : ErrorCode} (hgate : m.campaign.state ≠ .manualGate) :
    SafePass (Pass.closeOpen code m i) (Kept m i s) s := by
  unfold Pass.closeOpen
  split
  · exact Prog.safe_pure (.refl h i _)
  next t ht =>
    split
    · exact Prog.safe_pure (.refl h i _)
    · exact kept_close h ht rfl fun hg => absurd hg hgate

/-! ## Hosts that are away -/

section
variable (ht : m.targets[i]? = some t)
include ht

theorem kept_refuse {code : ErrorCode}
    (hgate : m.campaign.state = .manualGate → t.state ≠ .pending) :
    SafePass (Pass.refuse m i t code) (Kept m i s) s := by
  refine Prog.safe_bind (Prog.safe_issue (Q := fun _ s' => Kept m i s (m, false) s') ?_) ?_
  · intro s' hs'
    exact ⟨trivial, .missed (h.others hs') (.of_others hs') _⟩
  · intro locked s' hkept
    split
    · refine (kept_close hkept.held ht rfl hgate).mono fun r s'' hr => ?_
      exact ⟨hr.held, hr.follows, fun j hij hj => hr.settled j hij (hkept.settled j hij hj)⟩
    · exact Prog.safe_pure hkept

section
variable (hqueue : 0 < t.wave → t.state.aside = true ∨ m.Opened ∨ m.campaign.state = .planning)
  (hgate : m.campaign.state = .manualGate → t.state ≠ .pending)
include hqueue hgate

theorem kept_launchPlanning : SafePass (Pass.launch m i t .planning) (Kept m i s) s := by
  apply safe_launch h ht (copyMovable_aside rfl (by decide) hqueue hgate)
  · intro s' hs' h'
    exact .missed h' hs' _
  · intro s' row hs' hwave hstate hopen h'
    exact .written ht hwave hopen (by rw [hstate]; exact nofun) h' hs' _

theorem kept_holdOffline : SafePass (Pass.holdOffline facts m i t) (Kept m i s) s := by
  have hwait : SafePass
      (if facts.pastDeadline i then Pass.finishTarget m i t (.skipped, .other "offline_deadline")
        else if t.state = .queuedOffline then pure (m, true)
        else Pass.updateTarget m i t (.queuedOffline, .other "offline")) (Kept m i s) s := by
    split
    · exact kept_close h ht rfl hgate
    split
    · exact Prog.safe_pure (.refl h i _)
    exact kept_updateTarget h ht (copyMovable_aside rfl (by decide) hqueue hgate) nofun
  unfold Pass.holdOffline
  split
  · exact kept_close h ht rfl hgate
  · exact kept_close h ht rfl hgate
  · exact hwait
  · exact hwait

end

theorem kept_replanTarget
    (hstate : t.state = .queuedOffline) : SafePass (Pass.replanTarget facts m i t) (Kept m i s) s := by
  have hgate : m.campaign.state = .manualGate → t.state ≠ .pending := by
    rw [hstate]
    exact fun _ => TargetState.noConfusion
  unfold Pass.replanTarget
  split
  · exact kept_close h ht rfl hgate
  split
  · exact Prog.safe_pure (.refl h i _)
  · split
    · exact kept_refuse h ht hgate
    · exact kept_launchPlanning h ht (fun _ => .inl (by rw [hstate]; rfl)) hgate

end

theorem kept_serviceOffline : SafePass (Pass.serviceOffline facts m i) (Kept m i s) s := by
  unfold Pass.serviceOffline
  split
  · exact Prog.safe_pure (.refl h i _)
  next t ht =>
    split
    · exact Prog.safe_pure (.refl h i _)
    next hstate =>
      replace hstate : t.state = .queuedOffline := not_not.mp hstate
      have hgate : m.campaign.state = .manualGate → t.state ≠ .pending := by
        rw [hstate]
        exact fun _ => TargetState.noConfusion
      split
      · exact kept_close h ht rfl hgate
      · split
        · exact kept_close h ht rfl hgate
        · exact Prog.safe_pure (.refl h i _)
      · split
        · exact kept_replanTarget h ht hstate
        · exact kept_updateTarget h ht .pending fun hunder => absurd hunder (by decide)

end

end

end Flotestro.Campaigns
