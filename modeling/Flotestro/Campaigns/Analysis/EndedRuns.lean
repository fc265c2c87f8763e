import Flotestro.Campaigns.Analysis.Ending
import Flotestro.Campaigns.Analysis.Passes

/-!
# What every run leaves behind

A pass among requests of operators and writes that fail, followed along its text: whatever it does,
the copy calls no host finished that is open in the store.
-/

set_option autoImplicit false

namespace Flotestro.Campaigns

open Library List

/-- What a pass knows of the store through its copy. -/
structure Copied (m s : Store) : Prop where
  closing : s.Closing
  length : s.targets.length = m.targets.length
  rows : ∀ i, FinishedAt m.targets i → FinishedAt s.targets i
  revision : m.campaign.revision ≤ s.campaign.revision
  same : m.campaign.revision = s.campaign.revision → s.campaign.state = m.campaign.state

/-- No host of the copy is still to start. -/
def Draining (m : Store) : Prop :=
  ∀ t ∈ m.targets, t.state.finished = true ∨ t.state.underWay = true

/-- What a part of a pass leaves of the copy it began with. -/
structure Carried (m m' s : Store) : Prop where
  copied : Copied m' s
  draining : Draining m → Draining m'

/-- A part of a pass that carries its copy on. -/
abbrev Carrying (spared : Statement → Bool) (m : Store) (p : Pass (Store × Bool)) (s : Store) : Prop :=
  SafeEnd spared p (fun r s' => Carried m r.1 s') s

/-- The rest of a pass. -/
abbrev EndsPass (spared : Statement → Bool) (p : Pass Unit) (s : Store) : Prop :=
  SafeEnd spared p (fun _ _ => True) s

section

variable {spared : Statement → Bool} {m m' m'' s s' : Store} {i : Nat} {t : Target}
  {facts : Facts}

theorem Carried.refl (h : Copied m s) : Carried m m s := ⟨h, id⟩

theorem Carried.trans (h : Carried m m' s) (h' : Carried m' m'' s') : Carried m m'' s' :=
  ⟨h'.copied, fun hm => h'.draining (h.draining hm)⟩

section
variable (h : Copied m s)
include h

theorem Copied.others (hs : Relation.ReflTransGen Store.Other s s') : Copied m s' := by
  have hahead := Ahead.of_others hs
  exact
    { closing := closing_others h.closing hs
      length := hahead.rows.length_eq.symm.trans h.length
      rows := fun i hi => (h.rows i hi).ahead hahead
      revision := Nat.le_trans h.revision hahead.revision
      same := fun heq => by
        have hle := h.revision
        have hle' := hahead.revision
        rw [(hahead.same (by omega)).1]
        exact h.same (by omega) }

/-- A copy that is all finished is so in the store. -/
theorem Copied.allSettled (hm : allFinished m.targets = true) : s.AllSettled := by
  rw [allSettled_iff]
  intro i hi
  rw [h.length] at hi
  exact h.rows i ⟨_, List.getElem?_eq_getElem hi, all_eq_true.mp hm _ (getElem_mem hi)⟩

/-! ## Writes of targets -/

section
variable (ht : m.targets[i]? = some t)
include ht

/-- A write goes into the row and the copy, or into neither. -/
theorem Carried.written {change : Target → Target} {next : TargetState} (hlegal : t.state.mayBecome next = true)
    (hchange : ∀ u, (change u).state = next) :
    Carried m (Pass.written m i t change (s.writeTarget i t change).1).1
      (s.writeTarget i t change).2 := by
  have hclosing : (s.writeTarget i t change).2.Closing :=
    closing_writeTarget h.closing hchange hlegal
  rcases Store.writeTarget_eq s i t change with hw | ⟨r, hr, -, -, hw⟩
  · rw [hw]
    exact .refl h
  rw [hw] at hclosing ⊢
  refine ⟨⟨hclosing, ?_, ?_, h.revision, h.same⟩, ?_⟩
  · simp only [Store.withTarget, Pass.written, Pass.withRow, length_set]
    exact h.length
  · intro j hj
    by_cases hij : i = j
    · subst hij
      have hfin : next.finished = true := by
        have := finished_of_finishedAt_set hj
        rwa [show ({ change t with revision := r.revision + 1 } : Target).state = next from
          hchange t] at this
      refine finishedAt_set_self (List.getElem?_eq_some_iff.mp hr).1 ?_
      rw [show ({ change r with revision := r.revision + 1 } : Target).state = next from hchange r]
      exact hfin
    · exact (finishedAt_set_ne hij).mpr (h.rows j ((finishedAt_set_ne hij).mp hj))
  · intro hm u hu
    rcases mem_or_eq_of_mem_set hu with hu | rfl
    · exact hm u hu
    rw [show ({ change t with revision := r.revision + 1 } : Target).state = next from hchange t]
    rcases hm t (mem_of_getElem? ht) with hfin | hunder
    · rw [not_finished_of_mayBecome hlegal] at hfin
      cases hfin
    · exact TargetState.carried_of_mayBecome hlegal hunder

theorem carried_updateTarget {outcome : Outcome} :
    Carrying spared m (Pass.updateTarget m i t outcome) s := by
  unfold Pass.updateTarget
  split
  next hlegal =>
    refine .bind (M := fun answer s' => Carried m
      (Pass.written m i t (Target.settled outcome.1 outcome.2) answer).1 s') (.issue ?_) ?_
    · intro s' hs'
      refine ⟨hlegal, .written (h.others hs') ht hlegal fun _ => rfl, ?_⟩
      rintro answer hanswer -
      cases hanswer
      exact .refl (h.others hs')
    · intro answer s' hs'
      exact .pure hs'
  · exact .pure (.refl h)

theorem carried_finishTarget {outcome : Outcome} :
    Carrying spared m (Pass.finishTarget m i t outcome) s := by
  refine .bind (carried_updateTarget h ht) ?_
  rintro ⟨m', done⟩ s' hs'
  exact .pure hs'

theorem carried_launch {next : TargetState} : Carrying spared m (Pass.launch m i t next) s := by
  unfold Pass.launch
  split
  next hlegal =>
    refine .bind (M := fun answer s' => Carried m
      (Pass.written m i t (Target.launched next) answer).1 s') (.issue ?_) ?_
    · intro s' hs'
      refine ⟨hlegal, ?_, ?_⟩
      · refine iteInduction (motive := fun r => Carried m (Pass.written m i t (Target.launched next) (Prod.fst r)).1
          (Prod.snd r)) (fun _ => ?_) fun _ => .refl (h.others hs')
        exact .written (h.others hs') ht hlegal fun _ => rfl
      · rintro answer hanswer -
        cases hanswer
        exact .refl (h.others hs')
    · intro answer s' hs'
      exact .pure hs'
  · exact .pure (.refl h)

theorem carried_refuse {code : ErrorCode} : Carrying spared m (Pass.refuse m i t code) s := by
  refine .bind (M := fun _ s' => Copied m s') (.issue fun s' hs' => ?_) ?_
  · exact ⟨trivial, h.others hs', fun answer hanswer => absurd hanswer (by simp [Statement.failed])⟩
  · intro locked s' h'
    split
    · exact carried_finishTarget h' ht
    · exact .pure (.refl h')

end

end

/-- A loop whose body keeps the copy keeps it. -/
theorem carried_forTargets {f : Store → Nat → Pass (Store × Bool)}
    (hf : ∀ m i s, Copied m s → Carrying spared m (f m i) s) (h : Copied m s) :
    Carrying spared m (Pass.forTargets f m) s := by
  refine (SafeEnd.each (J := fun _ m' s' => Carried m m' s') (B := fun m' s' => Carried m m' s')
    ?_ _ (.refl h)).mono ?_
  · intro i _ m' s' hm'
    refine (hf m' i s' hm'.copied).mono fun r s'' hr => ?_
    split <;> exact hm'.trans hr
  · intro r s' hr
    split at hr <;> exact hr

end

/-! ## Writing the campaign -/

/-- An end may be written from a copy: every host is settled, or the campaign was closed
behind the back of a copy that has it open. -/
def Endable (c : Campaign) (s : Store) : Prop :=
  s.AllSettled ∨ s.campaign.state.closed = true ∧ c.state.closed = false

theorem Endable.others {c : Campaign} {s s' : Store} (h : Endable c s)
    (hs : Relation.ReflTransGen Store.Other s s') : Endable c s' := by
  have hahead := Ahead.of_others hs
  rcases h with h | ⟨h, hc⟩
  · exact .inl (h.ahead hahead)
  · exact .inr ⟨hahead.closed h, hc⟩

theorem Endable.allSettled {c : Campaign} {s : Store} (h : Endable c s)
    (hstate : s.campaign.state = c.state) : s.AllSettled := by
  rcases h with h | ⟨h, hc⟩
  · exact h
  · rw [hstate, hc] at h
    cases h

section

variable {spared : Statement → Bool} {m s : Store} {next : State} {facts : Facts}

theorem State.ne_canceling_of_mayBecome {now next : State} (h : now.mayBecome next = true) :
    next ≠ .canceling := by
  revert h
  cases now <;> cases next <;> decide

theorem Copied.writeState (h : Copied m s) (hrev : m.campaign.revision = s.campaign.revision)
    (hcond : EndCondition (.writeState m.campaign next) s) :
    Copied
      { m with campaign := { m.campaign with state := next, revision := s.campaign.revision + 1 } }
      (s.writeState m.campaign next).2 := by
  have hclosing := closing_step _ s hcond h.closing
  revert hclosing
  change (s.writeState m.campaign next).2.Closing → _
  unfold Store.writeState
  rw [if_pos hrev.symm]
  intro hclosing
  exact ⟨hclosing, h.length, h.rows, Nat.le_refl _, fun _ => rfl⟩

/-- What an attempt of `SetState` leaves, by its answer. -/
def Attempted (m : Store) (next : State) : Option Nat → Store → Prop
  | none, s => Copied m s ∧ (next.ended = true → Endable m.campaign s)
  | some revision, s =>
    Carried m { m with campaign := { m.campaign with state := next, revision := revision } } s

theorem carried_attempts (n : Nat) (h : Copied m s)
    (hend : next.ended = true → Endable m.campaign s) :
    SafeEnd spared (Pass.attempts next n m.campaign)
      (fun r s' => Carried m { m with campaign := r.1 } s') s := by
  induction n generalizing m s with
  | zero => exact .pure (.refl h)
  | succ n ih =>
    unfold Pass.attempts
    split
    next hmay =>
      refine .bind (M := Attempted m next) (.issue ?_) ?_
      · intro s' hs'
        have h' := h.others hs'
        have hcond : EndCondition (.writeState m.campaign next) s' := by
          intro hrev
          refine ⟨State.ne_canceling_of_mayBecome hmay, fun hended => ?_⟩
          exact ((hend hended).others hs').allSettled (h'.same hrev)
        refine ⟨hcond, ?_, fun answer hanswer => absurd hanswer (by simp [Statement.failed])⟩
        by_cases hrev : m.campaign.revision = s'.campaign.revision
        · rw [Store.step_writeState_of hrev]
          exact ⟨h'.writeState hrev hcond, id⟩
        · rw [Store.step_writeState_of_not hrev]
          exact ⟨h', fun hended => (hend hended).others hs'⟩
      · intro answer s₁ hs₁
        cases answer with
        | some revision => exact .pure hs₁
        | none =>
          refine .bind (M := fun c s' => c = s'.campaign ∧ Copied m s' ∧
            (next.ended = true → Endable m.campaign s')) (.issue fun s' hs' => ?_) ?_
          · exact ⟨trivial, ⟨rfl, hs₁.1.others hs', fun hended => (hs₁.2 hended).others hs'⟩,
              fun answer hanswer => absurd hanswer (by simp [Statement.failed])⟩
          · rintro c s₂ ⟨rfl, h₂, hend₂⟩
            have hreread : Copied { m with campaign := s₂.campaign } s₂ :=
              ⟨h₂.closing, h₂.length, h₂.rows, Nat.le_refl _, fun _ => rfl⟩
            split
            next hstate =>
              refine (ih hreread fun hended => ?_).mono fun r s₃ hr => ⟨hr.copied, id⟩
              exact .inl ((hend₂ hended).allSettled hstate)
            · exact .pure ⟨hreread, id⟩
    · exact .pure (.refl h)

theorem carried_setState (h : Copied m s) (hend : next.ended = true → Endable m.campaign s) :
    Carrying spared m (Pass.setState m next) s := by
  refine .bind (M := fun _ s' => Copied m s' ∧ (next.ended = true → Endable m.campaign s'))
    (.issue fun s' hs' => ?_) ?_
  · exact ⟨trivial, ⟨h.others hs', fun hended => (hend hended).others hs'⟩,
      fun answer hanswer => absurd hanswer (by simp [Statement.failed])⟩
  · rintro _ s₁ ⟨h₁, hend₁⟩
    refine .bind (carried_attempts 3 h₁ hend₁) ?_
    rintro ⟨c, done⟩ s₂ hs₂
    exact .pure hs₂

theorem ends_endWith (h : Copied m s) (hend : next.ended = true → Endable m.campaign s) :
    EndsPass spared (Pass.endWith m next) s := by
  refine .bind (carried_setState h hend) ?_
  intro _ _ _
  exact .pure trivial

theorem ends_endWith_of_not (h : Copied m s) (hnext : next.ended = false) :
    EndsPass spared (Pass.endWith m next) s := by
  refine ends_endWith h fun hended => ?_
  rw [hnext] at hended
  cases hended

theorem ended_pauseState (targets : List Target) : (pauseState targets).ended = false := by
  unfold pauseState
  split <;> rfl

theorem ends_complete (h : Copied m s) (hm : allFinished m.targets = true) :
    EndsPass spared (Pass.complete m) s :=
  ends_endWith h fun _ => .inl (h.allSettled hm)

theorem ends_enterGate (h : Copied m s) : EndsPass spared (Pass.enterGate m) s := by
  unfold Pass.enterGate
  split
  · exact .pure trivial
  · exact ends_endWith_of_not h rfl

theorem carried_progress {i : Nat} (h : Copied m s) :
    Carrying spared m (Pass.progress facts m i) s := by
  unfold Pass.progress
  split
  · exact .pure (.refl h)
  next t ht =>
    split
    · exact .pure (.refl h)
    · exact carried_finishTarget h ht

theorem carried_closeOpen {code : ErrorCode} {i : Nat} (h : Copied m s) :
    Carrying spared m (Pass.closeOpen code m i) s := by
  unfold Pass.closeOpen
  split
  · exact .pure (.refl h)
  next t ht =>
    split
    · exact .pure (.refl h)
    · exact carried_finishTarget h ht

theorem ends_settle (h : Copied m s) : EndsPass spared (Pass.settle facts m) s := by
  unfold Pass.settle
  split
  · exact .pure trivial
  refine .bind (carried_forTargets (fun _ _ _ => carried_progress) h) ?_
  rintro ⟨m', goesOn⟩ s' hs'
  dsimp only
  split
  · exact .pure trivial
  · exact ends_endWith_of_not hs'.copied rfl

/-- A campaign that drains is ended when no host of it is at work, and none is to start. -/
theorem ends_drain (h : Copied m s) (hm : Draining m) : EndsPass spared (Pass.drain facts m) s := by
  unfold Pass.drain
  split
  · exact .pure trivial
  refine .bind (carried_forTargets (fun _ _ _ => carried_progress) h) ?_
  rintro ⟨m', goesOn⟩ s' hs'
  dsimp only
  split
  · exact .pure trivial
  next hsettled =>
    replace hsettled : cancelSettled m'.targets = true := by simpa using hsettled
    refine ends_endWith hs'.copied fun _ => .inl (hs'.copied.allSettled ?_)
    rw [allFinished, all_eq_true]
    intro t ht
    have hidle := all_eq_true.mp hsettled t ht
    refine (hs'.draining hm t ht).resolve_right fun hunder => ?_
    simp [hunder] at hidle

end

/-! ## Starting a wave -/

section

variable {spared : Statement → Bool} {m s : Store} {i : Nat} {t : Target} {w : Pass.Wave}
  {facts : Facts} {f : HostFacts}

theorem carried_holdOffline (h : Copied m s) (ht : m.targets[i]? = some t) :
    Carrying spared m (Pass.holdOffline facts m i t) s := by
  have hqueue : Carrying spared m (if facts.pastDeadline i then Pass.finishTarget m i t (.skipped, .other "offline_deadline")
        else if t.state = .queuedOffline then pure (m, true)
        else Pass.updateTarget m i t (.queuedOffline, .other "offline")) s := by
    split
    · exact carried_finishTarget h ht
    · split
      · exact .pure (.refl h)
      · exact carried_updateTarget h ht
  unfold Pass.holdOffline
  split
  · exact carried_finishTarget h ht
  · exact carried_finishTarget h ht
  · exact hqueue
  · exact hqueue

theorem carried_replanTarget (h : Copied m s) (ht : m.targets[i]? = some t) :
    Carrying spared m (Pass.replanTarget facts m i t) s := by
  unfold Pass.replanTarget
  split
  · exact carried_finishTarget h ht
  split
  · exact .pure (.refl h)
  · split
    · exact carried_refuse h ht
    · exact carried_launch h ht

theorem carried_serviceOffline (h : Copied m s) :
    Carrying spared m (Pass.serviceOffline facts m i) s := by
  unfold Pass.serviceOffline
  split
  · exact .pure (.refl h)
  next t ht =>
    split
    · exact .pure (.refl h)
    split
    · exact carried_finishTarget h ht
    · split
      · exact carried_finishTarget h ht
      · exact .pure (.refl h)
    · split
      · exact carried_replanTarget h ht
      · exact carried_updateTarget h ht

theorem carried_awaitBudget {code : ErrorCode} (h : Copied m s) (ht : m.targets[i]? = some t) :
    Carrying spared m (Pass.awaitBudget m i t code) s := by
  unfold Pass.awaitBudget
  split
  · exact carried_updateTarget h ht
  · exact .pure (.refl h)

theorem carried_pauseWave (h : Copied m s) : Carrying spared m (Pass.pauseWave m) s := by
  refine .bind (carried_setState h fun hended => ?_) ?_
  · rw [ended_pauseState] at hended
    cases hended
  · rintro ⟨m', done⟩ s' hs'
    exact .pure hs'

variable (h : Copied w.copy s) (ht : w.copy.targets[i]? = some t)

include h ht in
theorem carried_startHost {next : TargetState} :
    SafeEnd spared (Pass.startHost w i t next) (fun r s' => Carried w.copy r.1.copy s') s := by
  refine .bind (carried_launch h ht) ?_
  rintro ⟨m', done⟩ s' hs'
  exact .pure hs'

include h ht in
theorem carried_startRemediation :
    SafeEnd spared (Pass.startRemediation f w i t) (fun r s' => Carried w.copy r.1.copy s') s := by
  unfold Pass.startRemediation
  split
  · exact .pure (.refl h)
  · exact .pure (.refl h)
  · exact .map (carried_finishTarget h ht)
  · exact .map (carried_pauseWave h)
  · exact .map (carried_finishTarget h ht)
  · exact .map (carried_refuse h ht)
  · exact carried_startHost h ht

include h ht in
theorem carried_startClaimed :
    SafeEnd spared (Pass.startClaimed f w i t) (fun r s' => Carried w.copy r.1.copy s') s := by
  unfold Pass.startClaimed
  split
  · exact .pure (.refl h)
  · exact .map (carried_awaitBudget h ht)
  split
  · exact carried_startRemediation h ht
  · split
    · exact .map (carried_refuse h ht)
    · exact carried_startHost h ht

include h ht in
theorem carried_startWaiting :
    SafeEnd spared (Pass.startWaiting facts w i t) (fun r s' => Carried w.copy r.1.copy s') s := by
  unfold Pass.startWaiting
  dsimp only
  split
  · exact .map (carried_finishTarget h ht)
  · exact .map (carried_holdOffline h ht)
  split
  · exact .map (carried_pauseWave h)
  · exact .map (carried_finishTarget h ht)
  · split
    · exact .map (carried_finishTarget h ht)
    · exact carried_startClaimed h ht

include h in
theorem carried_launchClaimed :
    SafeEnd spared (Pass.launchClaimed facts w i) (fun r s' => Carried w.copy r.1.copy s') s := by
  unfold Pass.launchClaimed
  split
  · exact .pure (.refl h)
  next t ht =>
    split
    · exact .pure (.refl h)
    split
    · exact .pure (.refl h)
    · split
      · exact .pure (.refl h)
      · exact carried_startWaiting h ht

theorem Copied.adopt (h : Copied m s) (claimed : List (Nat × Nat)) :
    Copied (Pass.adopt claimed m) s where
  __ := h
  length := by
    simp only [Pass.adopt, length_mapIdx]
    exact h.length
  rows i := by
    rintro ⟨t, ht, hfin⟩
    simp only [Pass.adopt, getElem?_mapIdx, Option.map_eq_some_iff] at ht
    obtain ⟨u, hu, rfl⟩ := ht
    rw [adopted_state] at hfin
    exact h.rows i ⟨u, hu, hfin⟩

theorem Copied.claimWave (h : Copied m s) (wave : Int) (free : Nat → Bool) (limit : Nat) :
    Copied m (s.claimWave wave free limit).2 where
  __ := h
  closing := closing_claimWave h.closing wave free limit
  length := by
    simp only [Store.claimWave, length_mapIdx]
    exact h.length
  rows i hi := by
    obtain ⟨t, ht, hfin⟩ := h.rows i hi
    simp only [FinishedAt, Store.claimWave, getElem?_mapIdx, ht]
    refine ⟨_, rfl, ?_⟩
    split <;> exact hfin

theorem ends_launchWave {wave : Int} (h : Copied m s) :
    EndsPass spared (Pass.launchWave facts m wave) s := by
  unfold Pass.launchWave
  dsimp only
  split
  · exact .pure trivial
  refine .bind (M := fun _ s' => Copied m s') (.issue fun s' hs' => ?_) ?_
  · exact ⟨trivial, (h.others hs').claimWave wave _ _, fun _ _ _ => h.others hs'⟩
  · intro claimed s₁ h₁
    refine .bind (SafeEnd.each (J := fun _ w' s' => Copied w'.copy s')
      (B := fun _ _ => True) ?_ _ (h₁.adopt claimed)) ?_
    · intro i _ w' s' hw'
      refine (carried_launchClaimed hw').mono fun r s'' hr => ?_
      split
      · exact hr.copied
      · trivial
    · intro _ _ _
      exact .pure trivial

theorem ends_enterPhase {wave : Int} {desired : State} (hdesired : desired.ended = false)
    (h : Copied m s) : EndsPass spared (Pass.enterPhase facts m wave desired) s := by
  unfold Pass.enterPhase
  split
  · refine .bind (carried_setState h fun hended => ?_) ?_
    · rw [hdesired] at hended
      cases hended
    · rintro ⟨m', done⟩ s' hs'
      dsimp only
      split
      · exact ends_launchWave hs'.copied
      · exact .pure trivial
  · exact ends_launchWave h

theorem ends_startWave (h : Copied m s) : EndsPass spared (Pass.startWave facts m) s := by
  unfold Pass.startWave
  dsimp only
  split
  · exact .pure trivial
  split
  · exact .pure trivial
  split
  · exact ends_enterGate h
  · split
    · exact ends_enterGate h
    · refine ends_enterPhase ?_ h
      rcases desiredState_eq m.campaign (currentWave m.targets) with hd | hd <;> rw [hd] <;> rfl

/-- A wave that is rolled out. -/
theorem ends_rollOut (h : Copied m s) : EndsPass spared (Pass.rollOut facts m) s := by
  unfold Pass.rollOut
  split
  · exact .pure trivial
  refine .bind (carried_forTargets (fun _ _ _ => carried_progress) h) ?_
  rintro ⟨m', goesOn⟩ s' hs'
  have h' := hs'.copied
  have hpause : EndsPass spared (Pass.pauseCampaign m') s' :=
    ends_endWith_of_not h' (ended_pauseState _)
  dsimp only
  split
  · exact hpause
  split
  · exact hpause
  split
  · exact hpause
  split
  next hall => exact ends_complete h' hall
  · refine .bind (carried_forTargets (fun _ _ _ => carried_serviceOffline) h') ?_
    rintro ⟨m'', goesOn'⟩ s'' hs''
    split
    · exact .pure trivial
    split
    · exact .pure trivial
    · split
      · exact .pure trivial
      · exact ends_startWave hs''.copied

end

section

variable {spared : Statement → Bool} {m s : Store} {i : Nat} {t : Target} {p : Pass.Planning}
  {facts : Facts}

theorem carried_orderPlan (h : Copied m s) (ht : m.targets[i]? = some t) :
    Carrying spared m (Pass.orderPlan facts m i t) s := by
  unfold Pass.orderPlan
  split
  · exact carried_finishTarget h ht
  · exact carried_holdOffline h ht
  · split
    · exact carried_refuse h ht
    · exact carried_launch h ht

theorem carried_recheckOfflinePlanning (h : Copied m s) (ht : m.targets[i]? = some t) :
    Carrying spared m (Pass.recheckOfflinePlanning facts m i t) s := by
  unfold Pass.recheckOfflinePlanning
  split
  · exact carried_finishTarget h ht
  · split
    · exact carried_finishTarget h ht
    · exact .pure (.refl h)
  · refine .bind (carried_updateTarget h ht) ?_
    rintro ⟨m', done⟩ s' hs'
    dsimp only
    split
    next u _ hu => exact (carried_orderPlan hs'.copied hu).mono fun r s'' hr => hs'.trans hr
    · exact .pure hs'

variable (h : Copied p.copy s) (ht : p.copy.targets[i]? = some t)

include h ht in
theorem carried_collectPlan :
    SafeEnd spared (Pass.collectPlan facts p i t) (fun r s' => Carried p.copy r.1.copy s') s := by
  unfold Pass.collectPlan
  split
  · exact .pure (.refl h)
  split
  · exact .pure (.refl h)
  · exact .pure (.refl h)
  · exact .map (carried_finishTarget h ht)
  · exact .map (carried_finishTarget h ht)
  · exact .map (carried_finishTarget h ht)
  · exact .map (carried_finishTarget h ht)
  · exact .map (carried_updateTarget h ht)

include h in
theorem carried_planHost :
    SafeEnd spared (Pass.planHost facts p i) (fun r s' => Carried p.copy r.1.copy s') s := by
  unfold Pass.planHost
  split
  · exact .pure (.refl h)
  next t ht =>
    split
    · exact .pure (.refl h)
    split
    · split
      · exact carried_collectPlan h ht
      · exact .map (carried_orderPlan h ht)
    · exact carried_collectPlan h ht
    · exact .map (carried_recheckOfflinePlanning h ht)
    · exact .pure (.refl h)

include h in
theorem carried_planFromOrderHost : SafeEnd spared (Pass.planFromOrderHost facts p i)
      (fun r s' => Carried p.copy r.1.copy s') s := by
  unfold Pass.planFromOrderHost
  split
  · exact .pure (.refl h)
  next t ht =>
    split
    · exact .pure (.refl h)
    split
    · exact .pure (.refl h)
    split
    · exact .map (carried_finishTarget h ht)
    · exact .pure (.refl h)
    refine .bind (carried_updateTarget h ht) ?_
    rintro ⟨m', done⟩ s' hs'
    dsimp only
    split
    next u _ hu =>
      refine .map ((carried_updateTarget hs'.copied hu).mono fun r s'' hr => ?_)
      exact hs'.trans hr
    · exact .pure hs'

theorem ends_failPlanning (h : Copied m s) : EndsPass spared (Pass.failPlanning m) s := by
  refine .bind (carried_forTargets (fun _ _ _ => carried_closeOpen) h) ?_
  rintro ⟨m', goesOn⟩ s' hs'
  exact ends_endWith_of_not hs'.copied rfl

theorem ends_finishPlanning (h : Copied m s) : EndsPass spared (Pass.finishPlanning facts m) s := by
  unfold Pass.finishPlanning
  split
  next hall =>
    split
    · exact ends_failPlanning h
    · exact ends_complete h hall
  · split
    · exact .pure trivial
    · exact ends_failPlanning h
    refine .bind (M := fun _ _ => True) (.issue fun s' _ => ?_) fun _ _ _ => .pure trivial
    refine ⟨?_, trivial, fun _ _ _ => trivial⟩
    split <;> rfl

theorem ends_planAll {f : Pass.Planning → Nat → Pass (Pass.Planning × Bool)} (h : Copied m s)
    (hf : ∀ p i s, Copied p.copy s →
      SafeEnd spared (f p i) (fun r s' => Carried p.copy r.1.copy s') s) :
    EndsPass spared (Pass.planAll facts f m) s := by
  refine .bind (SafeEnd.each (J := fun _ p' s' => Copied p'.copy s')
    (B := fun p' s' => Copied p'.copy s') ?_ _ h) ?_
  · intro i _ p' s' hp'
    refine (hf p' i s' hp').mono fun r s'' hr => ?_
    split <;> exact hr.copied
  · rintro ⟨p', goesOn⟩ s' hs'
    replace hs' : Copied p'.copy s' := by
      cases goesOn <;> exact hs'
    dsimp only
    split
    · exact .pure trivial
    · split
      · exact .pure trivial
      · exact ends_finishPlanning hs'

/-- A campaign that is planned. -/
theorem ends_plan (h : Copied m s) : EndsPass spared (Pass.plan facts m) s := by
  unfold Pass.plan
  split
  · split
    · exact ends_failPlanning h
    · split
      · exact .pure trivial
      · exact ends_planAll h fun _ _ _ => carried_planFromOrderHost
  · split
    · exact ends_failPlanning h
    · split
      · exact .pure trivial
      · exact ends_planAll h fun _ _ _ => carried_planHost

end

end Flotestro.Campaigns
