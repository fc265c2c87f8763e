import Flotestro.Campaigns.Analysis.Meanwhile
import Flotestro.Library.Runs

/-!
# What the statements of a pass keep

`Condition` says, for every statement, under what circumstances a pass may issue it.  Under it the
statement keeps the invariant of a rollout.  The passes are shown to meet it elsewhere.
-/

set_option autoImplicit false

namespace Flotestro.Campaigns

open Library List

namespace Store

/-- A host may be started: not while the hosts plan, in a wave only once the waves may
start, and within the limit. -/
def MayStart (s : Store) (t : Target) : Prop :=
  s.campaign.state ≠ .planning ∧ (0 < t.wave → s.Opened) ∧
    underWayTargets s.targets < s.campaign.order.maxConcurrent

structure Movable (s : Store) (t : Target) (next : TargetState) : Prop where
  legal : t.state.mayBecome next = true
  work : next.underWay = true → t.state.underWay = true ∨ s.MayStart t
  queue : next.aside = true → 0 < t.wave →
    t.state.aside = true ∨ s.Opened ∨ s.campaign.state = .planning ∨ s.campaign.state.closed = true
  budget : s.campaign.state = .planning → next ≠ .awaitingBudget
  gate : s.campaign.state = .manualGate → t.state = .pending → next = .pending

end Store

/-- Under what circumstances a pass issues a statement. -/
def Condition : Statement → Store → Prop
  | .update i copy next _, s =>
    ∀ t, s.targets[i]? = some t → t.revision = copy.revision → t.state = copy.state →
      s.Movable t next
  | .launch i copy next, s =>
    s.campaign.state.launching = true →
      ∀ t, s.targets[i]? = some t → t.revision = copy.revision → t.state = copy.state →
        s.Movable t next
  | .setState c next, s =>
    c.revision = s.campaign.revision →
      c.state = s.campaign.state ∧ c.state.mayBecome next = true
  | .writeState c next, s =>
    c.revision = s.campaign.revision →
      s.campaign.state.mayBecome next = true ∧
        (next = .manualGate → s.GateStands ∧ s.WaveWaits)
  | .finishPlanning next, s =>
    s.campaign.state = .planning →
      (next = .planned ∨ next = .awaitingApproval) ∧
        ∀ t ∈ s.targets, 0 < t.wave → t.state.aside = false
  | .claimWave .., s => s.campaign.state ≠ .planning
  | _, _ => True

theorem not_finished_of_mayBecome {t next : TargetState} (h : t.mayBecome next = true) :
    t.finished = false := by
  unfold TargetState.mayBecome at h
  cases ht : t.finished with
  | false => rfl
  | true =>
    rw [if_pos ht] at h
    cases h

section

variable {l : List Target} {i : Nat} {t row : Target}

/-- An open row of a finished canary's list can be written without the canary. -/
theorem canary_set_of_finished (hl : CanaryFinished l) (ht : l[i]? = some t)
    (hopen : t.state.finished = false) (hwave : row.wave = t.wave) :
    canary (l.set i row) = canary l := by
  obtain ⟨hi, hget⟩ := List.getElem?_eq_some_iff.mp ht
  refine canary_eq_of_rows ?_ hl
  nth_rewrite 1 [← set_getElem_self hi]
  rw [hget]
  refine forall₂_set (forall₂_same.mpr fun _ _ => ⟨rfl, fun _ => rfl⟩) ⟨hwave, fun hfin => ?_⟩ i
  rw [hopen] at hfin
  cases hfin

theorem underWay_set_le (ht : l[i]? = some t)
    (h : row.state.underWay = true → t.state.underWay = true) :
    underWayTargets (l.set i row) ≤ underWayTargets l := by
  have hcount := countP_set_add (b := row) (p := fun t => t.state.underWay) ht
  have hle : row.state.underWay.toNat ≤ t.state.underWay.toNat := by
    revert h
    cases row.state.underWay <;> cases t.state.underWay <;> decide
  unfold underWayTargets
  omega

theorem underWay_set_le_succ (row : Target) (ht : l[i]? = some t) :
    underWayTargets (l.set i row) ≤ underWayTargets l + 1 := by
  have hcount := countP_set_add (b := row) (p := fun t => t.state.underWay) ht
  have hle := Bool.toNat_le row.state.underWay
  unfold underWayTargets
  omega

end

namespace Store

variable {s : Store} {i : Nat} {t row : Target}

def withTarget (s : Store) (i : Nat) (row : Target) : Store :=
  { s with targets := s.targets.set i row }

theorem Opened.withTarget (hs : s.Opened) (ht : s.targets[i]? = some t)
    (hopen : t.state.finished = false) (hwave : row.wave = t.wave) : (s.withTarget i row).Opened :=
  hs.congr (canary_set_of_finished hs.1 ht hopen hwave) rfl id

theorem GateStands.withTarget (hs : s.GateStands) (ht : s.targets[i]? = some t)
    (hopen : t.state.finished = false) (hwave : row.wave = t.wave) : (s.withTarget i row).GateStands :=
  hs.congr (canary_set_of_finished hs.1 ht hopen hwave) rfl rfl

theorem WaveWaits.withTarget (hs : s.WaveWaits) (ht : s.targets[i]? = some t)
    (hwave : row.wave = t.wave) (hrow : t.state = .pending → row.state = .pending) :
    (s.withTarget i row).WaveWaits := by
  obtain ⟨u, hu, huwave, hpending⟩ := hs
  obtain ⟨j, hj⟩ := getElem?_of_mem hu
  by_cases hij : i = j
  · subst hij
    obtain rfl : t = u := Option.mem_unique ht hj
    obtain ⟨hi, _⟩ := List.getElem?_eq_some_iff.mp ht
    exact ⟨row, mem_set hi row, by rw [hwave]; exact huwave, hrow hpending⟩
  · refine ⟨u, ?_, huwave, hpending⟩
    apply mem_of_getElem?
    simp only [Store.withTarget]
    rw [getElem?_set_ne hij, hj]

theorem mem_withTarget {u : Target} (hu : u ∈ (s.withTarget i row).targets) :
    u ∈ s.targets ∨ u = row :=
  mem_or_eq_of_mem_set hu

/-- **A movable row keeps the invariant.** -/
theorem invariant_withTarget (hs : Invariant s)
    (ht : s.targets[i]? = some t) (hok : s.Movable t row.state) (hwave : row.wave = t.wave) :
    Invariant (s.withTarget i row) := by
  have hmem := mem_of_getElem? ht
  have hopen := not_finished_of_mayBecome hok.legal
  have hopened : s.Opened → (s.withTarget i row).Opened := fun h => h.withTarget ht hopen hwave
  refine ⟨?_, ?_, ?_, ?_, ?_, ?_⟩
  · intro u hu huwave
    rcases mem_withTarget hu with hu | rfl
    · exact hs.outside u hu huwave
    · have := hs.outside t hmem (by rw [← hwave]; exact huwave)
      rw [hopen] at this
      cases this
  · intro hplan u hu
    rcases mem_withTarget hu with hu | rfl
    · exact hs.planning hplan u hu
    refine ⟨?_, hok.budget hplan⟩
    by_contra hunder
    rcases hok.work (by simpa using hunder) with hwork | hstart
    · rw [(hs.planning hplan t hmem).1] at hwork
      exact Bool.false_ne_true hwork
    · exact hstart.1 hplan
  · intro u hu huwave hunder
    rcases mem_withTarget hu with hu | rfl
    · exact hopened (hs.started u hu huwave hunder)
    · rw [hwave] at huwave
      rcases hok.work hunder with hwork | hstart
      · exact hopened (hs.started t hmem huwave hwork)
      · exact hopened (hstart.2.1 huwave)
  · intro hclosed hplan u hu huwave haside
    rcases mem_withTarget hu with hu | rfl
    · exact hopened (hs.queued hclosed hplan u hu huwave haside)
    rw [hwave] at huwave
    rcases hok.queue haside huwave with hqueue | hqueue | hqueue | hqueue
    · exact hopened (hs.queued hclosed hplan t hmem huwave hqueue)
    · exact hopened hqueue
    · exact absurd hqueue hplan
    · rw [show s.campaign.state.closed = false from hclosed] at hqueue
      cases hqueue
  · intro hgate
    obtain ⟨hstands, hwaits⟩ := hs.gate hgate
    exact ⟨hstands.withTarget ht hopen hwave, hwaits.withTarget ht hwave (hok.gate hgate)⟩
  · change underWayTargets (s.targets.set i row) ≤ s.campaign.order.maxConcurrent
    have hbound := hs.bound
    by_cases hstart : row.state.underWay = true → t.state.underWay = true
    · have := underWay_set_le ht hstart
      omega
    · obtain ⟨hunder, hnot⟩ := Classical.not_imp.mp hstart
      have hlt := ((hok.work hunder).resolve_left hnot).2.2
      have := underWay_set_le_succ row ht
      omega

theorem writeTarget_eq (s : Store) (i : Nat) (copy : Target) (change : Target → Target) :
    s.writeTarget i copy change = (none, s) ∨
      ∃ t, s.targets[i]? = some t ∧ t.revision = copy.revision ∧ t.state = copy.state ∧
        s.writeTarget i copy change =
          (some (t.revision + 1), s.withTarget i { change t with revision := t.revision + 1 }) := by
  unfold writeTarget
  split
  · exact .inl rfl
  next t ht =>
    split
    next h => exact .inr ⟨t, ht, h.1, h.2, rfl⟩
    · exact .inl rfl

variable {copy : Target} {next : TargetState}

theorem invariant_writeTarget (hs : Invariant s) {change : Target → Target}
    (hchange : ∀ t, (change t).wave = t.wave ∧ (change t).state = next)
    (hok : ∀ t, s.targets[i]? = some t → t.revision = copy.revision → t.state = copy.state →
      s.Movable t next) : Invariant (s.writeTarget i copy change).2 := by
  rcases writeTarget_eq s i copy change with h | ⟨t, ht, hrev, hstate, h⟩
  · rw [h]
    exact hs
  rw [h]
  apply invariant_withTarget hs ht
  · rw [show ({ change t with revision := t.revision + 1 } : Target).state = next from
      (hchange t).2]
    exact hok t ht hrev hstate
  · exact (hchange t).1

theorem step_writeState_of {c : Campaign} {state : State} (h : c.revision = s.campaign.revision) :
    (step (.writeState c state) s).1 = some (s.campaign.revision + 1) :=
  congrArg Prod.fst (if_pos h.symm)

theorem step_writeState_of_not {c : Campaign} {state : State} (h : c.revision ≠ s.campaign.revision) :
    step (.writeState c state) s = (none, s) := if_neg h.symm

/-! ## Writing the campaign -/

/-- A campaign that is moved into a state that does not close it was open and past its
planning. -/
theorem open_of_mayBecome {now next : State} (h : now.mayBecome next = true)
    (hnext : next.closed = false) : now.closed = false ∧ now ≠ .planning := by
  revert h hnext
  cases now <;> cases next <;> decide

theorem not_planning_of_mayBecome {now next : State} (h : now.mayBecome next = true) :
    next ≠ .planning := by
  revert h
  cases now <;> cases next <;> decide

/-- What the invariant asks of a campaign's new state. -/
theorem invariant_ofState (hs : Invariant s) {c : Campaign} (horder : c.order = s.campaign.order)
    (hadvanced : c.gateAdvanced = s.campaign.gateAdvanced) (hplan : c.state ≠ .planning)
    (hqueued : c.state.closed = false →
      (s.campaign.state.closed = false ∧ s.campaign.state ≠ .planning) ∨
        ∀ t ∈ s.targets, 0 < t.wave → t.state.aside = false)
    (hgate : c.state = .manualGate → s.GateStands ∧ s.WaveWaits) :
    Invariant { s with campaign := c } := by
  have hopened : s.Opened → ({ s with campaign := c } : Store).Opened := fun h =>
    h.congr rfl horder hadvanced.trans
  refine ⟨hs.outside, fun h => absurd h hplan, ?_, ?_, ?_, ?_⟩
  · intro t ht hwave hunder
    exact hopened (hs.started t ht hwave hunder)
  · intro hclosed _ t ht hwave haside
    rcases hqueued hclosed with ⟨hopen, hne⟩ | hnone
    · exact hopened (hs.queued hopen hne t ht hwave haside)
    · rw [hnone t ht hwave] at haside
      cases haside
  · intro h
    obtain ⟨hstands, hwaits⟩ := hgate h
    exact ⟨hstands.congr rfl horder hadvanced, hwaits⟩
  · rw [horder]
    exact hs.bound

theorem invariant_writeState (hs : Invariant s) {c : Campaign} {next : State}
    (h : c.revision = s.campaign.revision → s.campaign.state.mayBecome next = true ∧
        (next = .manualGate → s.GateStands ∧ s.WaveWaits)) : Invariant (s.writeState c next).2 := by
  unfold writeState
  split
  next hrev =>
    obtain ⟨hmay, hgate⟩ := h hrev.symm
    refine invariant_ofState hs rfl rfl
      ?_ ?_ hgate
    · exact not_planning_of_mayBecome hmay
    · intro hclosed
      exact .inl (open_of_mayBecome hmay hclosed)
  · exact hs

theorem of_mem_claimable {wave : Int} {free : Nat → Bool} {limit : Nat}
    (hi : i ∈ s.claimable wave free limit) (ht : s.targets[i]? = some t) :
    t.state = .pending ∨ t.state = .awaitingBudget := by
  have := (mem_filter.mp (mem_of_mem_take hi)).2
  simp only [ht, Bool.and_eq_true, Bool.or_eq_true, decide_eq_true_eq] at this
  exact this.1.2

theorem ahead_claimWave (hplan : s.campaign.state ≠ .planning) (wave : Int) (free : Nat → Bool)
    (limit : Nat) : Ahead s (s.claimWave wave free limit).2 := by
  refine { Ahead.refl s with rows := ?_ }
  apply forall₂_mapIdx
  intro i t ht
  split
  next hi =>
    have hopen : t.state.finished = false := by
      rcases of_mem_claimable hi ht with h | h <;> rw [h] <;> rfl
    exact .written hopen rfl rfl (.inl rfl) (fun _ _ => hopen) fun h => absurd h hplan
  · exact .refl _ t

end Store

/-- **Every statement of a pass keeps the invariant.** -/
theorem invariant_step (c : Statement) (s : Store) (hc : Condition c s) (hs : Invariant s) :
    Invariant (Store.step c s).2 := by
  cases c with
  | active | campaign | targets | lockForLaunch | setState => exact hs
  | update i copy next code => exact Store.invariant_writeTarget hs (fun _ => ⟨rfl, rfl⟩) hc
  | launch i copy next =>
    refine iteInduction (motive := fun r => Invariant (Prod.snd r)) (fun hlaunching => ?_) fun _ => hs
    exact Store.invariant_writeTarget hs (fun _ => ⟨rfl, rfl⟩) (hc hlaunching)
  | writeState copy next => exact Store.invariant_writeState hs hc
  | finishPlanning next =>
    refine iteInduction (motive := fun r => Invariant (Prod.snd r)) (fun hplan => ?_) fun _ => hs
    obtain ⟨hnext, hnone⟩ := hc hplan
    refine Store.invariant_ofState hs rfl rfl ?_ (fun _ => .inr hnone) ?_
    · rcases hnext with rfl | rfl <;> exact State.noConfusion
    · intro h
      rcases hnext with rfl | rfl <;> exact State.noConfusion h
  | claimWave wave free limit => exact hs.ahead (Store.ahead_claimWave hc wave free limit)

end Flotestro.Campaigns
