import Flotestro.Campaigns.Interface.Rollout
import Flotestro.Library.Tables

/-!
# What other sessions may do to a campaign

`Ahead m s` relates a copy to the store some requests of operators later, or to the store a pass
still sees through an older copy.  It is reflexive and transitive, every request respects it, and
the invariant of a rollout is kept along it.
-/

set_option autoImplicit false

namespace Flotestro.Campaigns

open Library List

/-! ## The kinds of a target's state -/

namespace TargetState

variable {t : TargetState}

theorem underWay_of_finished (h : t.finished = true) : t.underWay = false := by
  revert h
  cases t <;> decide

theorem aside_of_finished (h : t.finished = true) : t.aside = false := by
  revert h
  cases t <;> decide

theorem aside_of_underWay (h : t.underWay = true) : t.aside = false := by
  revert h
  cases t <;> decide

theorem finished_of_underWay (h : t.underWay = true) : t.finished = false := by
  revert h
  cases t <;> decide

theorem finished_of_aside (h : t.aside = true) : t.finished = false := by
  revert h
  cases t <;> decide

theorem mayBecome_of_finished {next : TargetState} (h : t.finished = false)
    (hnext : next.finished = true) : t.mayBecome next = true := by
  unfold mayBecome
  simp [h, hnext]

theorem ne_awaitingBudget (h : t.aside = false) : t ≠ .awaitingBudget := by
  rintro rfl
  cases h

end TargetState

/-- A row that other sessions moved on from a copy, `now` being the state of the campaign:
the row is as it was but for its revision, or it is finished.  Outside a closed campaign only a host
waiting for its connection is finished by others. -/
structure RowAhead (now : State) (t r : Target) : Prop where
  wave : r.wave = t.wave
  revision : t.revision ≤ r.revision
  same : t.revision = r.revision → r = t
  content : r = { t with revision := r.revision } ∨ r.state.finished = true
  finished : t.state.finished = true → r = t
  kept : now.closed = false → t.state ≠ .queuedOffline → t.state.finished = false →
    r.state.finished = false
  fresh : now = .planning → t.revision < r.revision → r.state.finished = true

namespace RowAhead

variable {now now' : State} {t r u : Target}

theorem refl (now : State) (t : Target) : RowAhead now t t where
  wave := rfl
  revision := Nat.le_refl _
  same _ := rfl
  content := .inl rfl
  finished _ := rfl
  kept _ _ h := h
  fresh _ h := absurd h (Nat.lt_irrefl _)

theorem state (h : RowAhead now t r) : r.state = t.state ∨ r.state.finished = true := by
  rcases h.content with hr | hr
  · left
    rw [hr]
  · exact .inr hr

theorem state_eq (h : RowAhead now t r) (hr : r.state.finished = false) : r.state = t.state := by
  rcases h.state with heq | hfin
  · exact heq
  · rw [hr] at hfin
    cases hfin

theorem trans (hclosed : now.closed = true → now'.closed = true)
    (hplanning : now' = .planning → now = .planning) (h : RowAhead now t r)
    (h' : RowAhead now' r u) : RowAhead now' t u where
  wave := h'.wave.trans h.wave
  revision := Nat.le_trans h.revision h'.revision
  same heq := by
    have hle := h.revision
    have hle' := h'.revision
    rw [h'.same (by omega), h.same (by omega)]
  content := by
    rcases h'.content with hu | hu
    · rcases h.content with hr | hr
      · left
        rw [hu, hr]
      · right
        rw [hu]
        exact hr
    · exact .inr hu
  finished ht := by
    have hr := h.finished ht
    rw [h'.finished (hr ▸ ht), hr]
  kept hnow hq ht := by
    have hopen : now.closed = false := by
      by_contra hc
      rw [hclosed (by simpa using hc)] at hnow
      cases hnow
    have hr := h.kept hopen hq ht
    exact h'.kept hnow (by rw [h.state_eq hr]; exact hq) hr
  fresh hnow hlt := by
    rcases Nat.lt_or_ge t.revision r.revision with htr | htr
    · have hr := h.fresh (hplanning hnow) htr
      rw [h'.finished hr]
      exact hr
    · exact h'.fresh hnow (by omega)

/-- An open row that is written. -/
theorem written (hopen : t.state.finished = false) (hwave : r.wave = t.wave)
    (hrevision : r.revision = t.revision + 1)
    (hcontent : r = { t with revision := r.revision } ∨ r.state.finished = true)
    (hkept : now.closed = false → t.state ≠ .queuedOffline → r.state.finished = false)
    (hfresh : now = .planning → r.state.finished = true) : RowAhead now t r where
  wave := hwave
  revision := by omega
  same h := absurd h (by omega)
  content := hcontent
  finished h := by
    rw [hopen] at h
    cases h
  kept hnow hq _ := hkept hnow hq
  fresh hnow _ := hfresh hnow

end RowAhead

theorem canary_eq_of_rows {l l' : List Target} (h : Forall₂
    (fun t r : Target => r.wave = t.wave ∧ (t.state.finished = true → r = t)) l l')
    (hl : CanaryFinished l) : canary l' = canary l := by
  induction h with
  | nil => rfl
  | @cons t r l l' hrow _ ih =>
    unfold canary CanaryFinished at *
    by_cases ht : t.wave = 0
    · have hfin : t.state.finished = true := hl t (by simp [canary, ht])
      rw [hrow.2 hfin, filter_cons_of_pos (by simpa using ht),
        filter_cons_of_pos (by simpa using ht), ih fun x hx => hl x ?_]
      rw [canary, filter_cons_of_pos (by simpa using ht)]
      exact mem_cons_of_mem _ hx
    · have hr : r.wave ≠ 0 := by rw [hrow.1]; exact ht
      rw [filter_cons_of_neg (by simpa using hr), filter_cons_of_neg (by simpa using ht),
        ih fun x hx => hl x ?_]
      rw [canary, filter_cons_of_neg (by simpa using ht)]
      exact hx

/-- The store some requests of operators after the copy. -/
structure Ahead (m s : Store) : Prop where
  rows : Forall₂ (RowAhead s.campaign.state) m.targets s.targets
  order : s.campaign.order = m.campaign.order
  revision : m.campaign.revision ≤ s.campaign.revision
  same : m.campaign.revision = s.campaign.revision →
    s.campaign.state = m.campaign.state ∧ s.campaign.gateAdvanced = m.campaign.gateAdvanced
  advanced : m.campaign.gateAdvanced = true → s.campaign.gateAdvanced = true
  gateless : m.campaign.state ≠ .manualGate → s.campaign.gateAdvanced = m.campaign.gateAdvanced
  atGate : s.campaign.state = .manualGate →
    m.campaign.state = .manualGate ∧ s.campaign.gateAdvanced = m.campaign.gateAdvanced
  planning : s.campaign.state = .planning → m.campaign.state = .planning
  planned : m.campaign.state = .planning →
    s.campaign.state = .planning ∨ s.campaign.state.closed = true
  closed : m.campaign.state.closed = true → s.campaign.state.closed = true

namespace Ahead

variable {m s u : Store}

theorem refl (m : Store) : Ahead m m where
  rows := forall₂_same.mpr fun t _ => RowAhead.refl _ t
  order := rfl
  revision := Nat.le_refl _
  same _ := ⟨rfl, rfl⟩
  advanced h := h
  gateless _ := rfl
  atGate h := ⟨h, rfl⟩
  planning h := h
  planned h := .inl h
  closed h := h

theorem trans (h : Ahead m s) (h' : Ahead s u) : Ahead m u where
  rows := forall₂_trans h.rows h'.rows fun _ _ _ => RowAhead.trans h'.closed h'.planning
  order := h'.order.trans h.order
  revision := Nat.le_trans h.revision h'.revision
  same heq := by
    have hle := h.revision
    have hle' := h'.revision
    obtain ⟨hstate, hgate⟩ := h.same (by omega)
    obtain ⟨hstate', hgate'⟩ := h'.same (by omega)
    exact ⟨hstate'.trans hstate, hgate'.trans hgate⟩
  advanced hm := h'.advanced (h.advanced hm)
  gateless hm := by
    have hs : s.campaign.state ≠ .manualGate := fun hs => hm (h.atGate hs).1
    rw [h'.gateless hs, h.gateless hm]
  atGate hu := by
    obtain ⟨hs, hgate'⟩ := h'.atGate hu
    obtain ⟨hm, hgate⟩ := h.atGate hs
    exact ⟨hm, hgate'.trans hgate⟩
  planning hu := h.planning (h'.planning hu)
  planned hm := by
    rcases h.planned hm with hs | hs
    · exact h'.planned hs
    · exact .inr (h'.closed hs)
  closed hm := h'.closed (h.closed hm)

/-! ### What the rows of a copy say of the store -/

theorem row (h : Ahead m s) {i : Nat} {r : Target} (hr : s.targets[i]? = some r) :
    ∃ t, m.targets[i]? = some t ∧ RowAhead s.campaign.state t r :=
  getElem?_of_forall₂ h.rows hr

theorem row_of_copy (h : Ahead m s) {i : Nat} {t : Target} (ht : m.targets[i]? = some t) :
    ∃ r, s.targets[i]? = some r ∧ RowAhead s.campaign.state t r :=
  getElem?_of_forall₂ h.rows.flip ht

theorem mem (h : Ahead m s) {r : Target} (hr : r ∈ s.targets) :
    ∃ t ∈ m.targets, RowAhead s.campaign.state t r :=
  exists_of_mem_forall₂ h.rows hr

theorem canary_eq {now : State} {l l' : List Target} (h : Forall₂ (RowAhead now) l l')
    (hl : CanaryFinished l) : canary l' = canary l :=
  canary_eq_of_rows (h.imp fun _ _ hrow => ⟨hrow.wave, hrow.finished⟩) hl

theorem underWay_le {now : State} {l l' : List Target} (h : Forall₂ (RowAhead now) l l') :
    underWayTargets l' ≤ underWayTargets l := by
  refine countP_le_of_forall₂ h fun t r hrow hr => ?_
  rw [← hrow.state_eq (TargetState.finished_of_underWay hr)]
  exact hr

end Ahead

/-! ## The invariant along others' requests -/

section

variable {m s : Store}

theorem Store.Opened.congr (hm : m.Opened) (hcanary : canary s.targets = canary m.targets)
    (horder : s.campaign.order = m.campaign.order)
    (hgate : m.campaign.gateAdvanced = true → s.campaign.gateAdvanced = true) : s.Opened := by
  unfold Opened CanaryFinished canaryExercisedNothing at *
  unfold canary at *
  rw [hcanary, horder]
  exact ⟨hm.1, hm.2.imp_left hgate⟩

theorem Store.GateStands.congr (hm : m.GateStands) (hcanary : canary s.targets = canary m.targets)
    (horder : s.campaign.order = m.campaign.order)
    (hgate : s.campaign.gateAdvanced = m.campaign.gateAdvanced) : s.GateStands := by
  unfold GateStands CanaryFinished canaryExercisedNothing at *
  unfold canary at *
  rw [hcanary, horder, hgate]
  exact hm

theorem Store.Opened.ahead (hm : m.Opened) (h : Ahead m s) : s.Opened :=
  hm.congr (Ahead.canary_eq h.rows hm.1) h.order h.advanced

theorem Store.GateStands.ahead (hm : m.GateStands) (h : Ahead m s)
    (hgate : s.campaign.gateAdvanced = m.campaign.gateAdvanced) : s.GateStands :=
  hm.congr (Ahead.canary_eq h.rows hm.1) h.order hgate

theorem Store.WaveWaits.ahead (hm : m.WaveWaits) (h : Ahead m s)
    (hopen : s.campaign.state.closed = false) : s.WaveWaits := by
  obtain ⟨t, ht, hwave, hpending⟩ := hm
  obtain ⟨i, hi⟩ := getElem?_of_mem ht
  obtain ⟨r, hr, hrow⟩ := h.row_of_copy hi
  have hunfinished := hrow.kept hopen (by rw [hpending]; decide) (by rw [hpending]; rfl)
  refine ⟨r, mem_of_getElem? hr, by rw [hrow.wave]; exact hwave, ?_⟩
  rw [hrow.state_eq hunfinished, hpending]

/-- **The invariant is kept by whatever other sessions do.** -/
theorem Invariant.ahead (hm : Invariant m) (h : Ahead m s) : Invariant s where
  outside r hr hwave := by
    obtain ⟨t, ht, hrow⟩ := h.mem hr
    have hfin := hm.outside t ht (by rw [← hrow.wave]; exact hwave)
    rw [hrow.finished hfin]
    exact hfin
  planning hs r hr := by
    obtain ⟨t, ht, hrow⟩ := h.mem hr
    have hplan := hm.planning (h.planning hs) t ht
    rcases hrow.state with heq | hfin
    · rw [heq]
      exact hplan
    · exact ⟨TargetState.underWay_of_finished hfin,
        TargetState.ne_awaitingBudget (TargetState.aside_of_finished hfin)⟩
  started r hr hwave hunder := by
    obtain ⟨t, ht, hrow⟩ := h.mem hr
    have hstate := hrow.state_eq (TargetState.finished_of_underWay hunder)
    exact (hm.started t ht (by rw [← hrow.wave]; exact hwave) (by rw [← hstate]; exact hunder)).ahead h
  queued hclosed hplan r hr hwave haside := by
    obtain ⟨t, ht, hrow⟩ := h.mem hr
    have hstate := hrow.state_eq (TargetState.finished_of_aside haside)
    have hclosed' : m.campaign.state.closed = false := by
      by_contra hc
      rw [h.closed (by simpa using hc)] at hclosed
      cases hclosed
    have hplan' : m.campaign.state ≠ .planning := by
      intro hp
      rcases h.planned hp with hs | hs
      · exact hplan hs
      · rw [hclosed] at hs
        cases hs
    exact (hm.queued hclosed' hplan' t ht (by rw [← hrow.wave]; exact hwave)
      (by rw [← hstate]; exact haside)).ahead h
  gate hs := by
    obtain ⟨hgate, hsame⟩ := h.atGate hs
    obtain ⟨hstands, hwaits⟩ := hm.gate hgate
    exact ⟨hstands.ahead h hsame, hwaits.ahead h (by rw [hs]; rfl)⟩
  bound := by
    rw [h.order]
    exact Nat.le_trans (Ahead.underWay_le h.rows) hm.bound

end

/-! ## The requests of operators -/

namespace Store

variable {s : Store}

theorem ahead_withState {next : State} (hnext : next ≠ .planning) (hgate : next ≠ .manualGate)
    (hplan : s.campaign.state ≠ .planning) (hopen : s.campaign.state.closed = false) :
    Ahead s (s.withState next) where
  rows := forall₂_same.mpr fun t _ => RowAhead.refl _ t
  order := rfl
  revision := Nat.le_succ _
  same heq := absurd heq (Nat.ne_of_lt (Nat.lt_succ_self _))
  advanced h := h
  gateless _ := rfl
  atGate h := absurd h hgate
  planning h := absurd h hnext
  planned h := absurd h hplan
  closed h := by
    rw [hopen] at h
    cases h

theorem pauseState_eq (l : List Target) : pauseState l = .paused ∨ pauseState l = .pausing := by
  unfold pauseState
  split
  · exact .inl rfl
  · exact .inr rfl

theorem ahead_pause (s : Store) : Ahead s s.pause := by
  unfold pause
  split
  next h =>
    apply ahead_withState
    · rcases pauseState_eq s.targets with h' | h' <;> rw [h'] <;> decide
    · rcases pauseState_eq s.targets with h' | h' <;> rw [h'] <;> decide
    · intro hp
      rw [hp] at h
      cases h
    · revert h
      cases s.campaign.state <;> decide
  · exact .refl s

theorem ahead_resume (s : Store) : Ahead s s.resume := by
  unfold resume
  split
  next h =>
    apply ahead_withState
    · decide
    · decide
    · rcases h with h | h <;> rw [h] <;> decide
    · rcases h with h | h <;> rw [h] <;> rfl
  · exact .refl s

theorem ahead_approve (s : Store) : Ahead s s.approve := by
  unfold approve
  split
  next h =>
    apply ahead_withState
    · decide
    · decide
    · rw [h]
      decide
    · rw [h]
      rfl
  · exact .refl s

theorem ahead_advanceGate (s : Store) : Ahead s s.advanceGate := by
  unfold advanceGate
  split
  next h =>
    exact
      { rows := forall₂_same.mpr fun t _ => RowAhead.refl _ t
        order := rfl
        revision := Nat.le_succ _
        same := fun heq => absurd heq (Nat.ne_of_lt (Nat.lt_succ_self _))
        advanced := fun _ => rfl
        gateless := fun hne => absurd h hne
        atGate := fun h' => State.noConfusion (show State.running = .manualGate from h')
        planning := fun h' => State.noConfusion (show State.running = .planning from h')
        planned := fun h' => by rw [h] at h'; cases h'
        closed := fun h' => by rw [h] at h'; exact absurd h' (by decide) }
  · exact .refl s

/-- A cancel closes the campaign, so it may finish any open row. -/
theorem rowAhead_cancelTarget {now : State} (hclosed : now.closed = true)
    (hplan : now ≠ .planning) (takenBack : Bool) (t : Target) :
    RowAhead now t (cancelTarget takenBack t) := by
  have hkept : ∀ a : Target, now.closed = false → t.state ≠ .queuedOffline →
      a.state.finished = false := fun _ h => by
    rw [hclosed] at h
    cases h
  unfold cancelTarget
  split
  next h =>
    refine .written ?_ rfl rfl (.inr rfl) (hkept _) fun hnow => absurd hnow hplan
    revert h
    cases t.state <;> decide
  · split
    next h =>
      refine .written ?_ rfl rfl (.inr rfl) (hkept _) fun hnow => absurd hnow hplan
      revert h
      cases takenBack <;> cases t.state <;> decide
    · split
      next h =>
        refine .written ?_ rfl rfl (.inl rfl) (hkept _) fun hnow => absurd hnow hplan
        revert h
        cases t.state <;> decide
      · exact .refl now t

theorem forall₂_mapIdx {R : Target → Target → Prop} {f : Nat → Target → Target}
    (l : List Target) (h : ∀ i t, l[i]? = some t → R t (f i t)) :
    Forall₂ R l (l.mapIdx f) := by
  rw [forall₂_iff_get]
  refine ⟨by simp, fun i hi hi' => ?_⟩
  simpa using h i l[i] (List.getElem?_eq_getElem hi)

theorem modify_eq_mapIdx (l : List Target) (i : Nat) (f : Target → Target) :
    l.modify i f = l.mapIdx fun j t => if i = j then f t else t := by
  apply ext_getElem?
  intro j
  rw [getElem?_modify, getElem?_mapIdx]
  cases l[j]? with
  | none => rfl
  | some t => by_cases h : i = j <;> simp [h]

theorem ahead_cancel (takenBack : Nat → Bool) (s : Store) : Ahead s (s.cancel takenBack) := by
  unfold cancel
  split
  · exact .refl s
  next h =>
    have hopen : s.campaign.state.closed = false := by
      revert h
      cases s.campaign.state <;> decide
    set next : State := if 0 < underWayTargets _ then .canceling else .canceled with hnext
    have hclosed : next.closed = true := by
      rw [hnext]
      split <;> rfl
    have hne : next ≠ .planning ∧ next ≠ .manualGate := by
      rw [hnext]
      constructor <;> split <;> decide
    exact
      { rows := forall₂_mapIdx _ fun i t _ => rowAhead_cancelTarget hclosed hne.1 _ t
        order := rfl
        revision := Nat.le_succ _
        same := fun heq => absurd heq (Nat.ne_of_lt (Nat.lt_succ_self _))
        advanced := id
        gateless := fun _ => rfl
        atGate := fun h' => absurd h' hne.2
        planning := fun h' => absurd h' hne.1
        planned := fun _ => .inr hclosed
        closed := fun _ => hclosed }

theorem ahead_skipTarget (i : Nat) (s : Store) : Ahead s (s.skipTarget i) := by
  unfold skipTarget
  split
  · exact .refl s
  · have hrow : ∀ t : Target, t.state = .queuedOffline → RowAhead s.campaign.state t
        { t with
          state := .skipped
          errorCode := .skippedByOperator
          revision := t.revision + 1 } := by
      intro t ht
      exact .written (by rw [ht]; rfl) rfl rfl (.inr rfl) (fun _ hq => absurd ht hq) fun _ => rfl
    exact
      { Ahead.refl s with
        rows := by
          simp only [modify_eq_mapIdx]
          apply forall₂_mapIdx
          intro j t _
          split
          · split
            next ht => exact hrow t ht
            · exact .refl _ t
          · exact .refl _ t }

end Store

/-- Every request of an operator respects `Ahead`. -/
theorem Ahead.of_other {s s' : Store} (h : Store.Other s s') : Ahead s s' := by
  cases h with
  | pause => exact s.ahead_pause
  | resume => exact s.ahead_resume
  | cancel takenBack => exact s.ahead_cancel takenBack
  | skipTarget i => exact s.ahead_skipTarget i
  | advanceGate => exact s.ahead_advanceGate
  | approve => exact s.ahead_approve

theorem Ahead.of_others {s s' : Store} (h : Relation.ReflTransGen Store.Other s s') :
    Ahead s s' := by
  induction h with
  | refl => exact .refl s
  | tail _ hlast ih => exact ih.trans (.of_other hlast)

end Flotestro.Campaigns
