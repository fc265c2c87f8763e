import Flotestro.Campaigns.Analysis.Statements

/-!
# The end of a campaign

What a pass knows of the store when its writes of targets may fail: a host that is finished in the
copy is finished in the store.  That is enough for every end of a campaign but one.  A campaign whose
plans ran out is ended whatever became of the writes that close its hosts, so there the writes
themselves have to go through.
-/

set_option autoImplicit false

namespace Flotestro.Campaigns

open Library List

theorem TargetState.carried_of_mayBecome {t next : TargetState} (h : t.mayBecome next = true)
    (ht : t.underWay = true) : next.finished = true ∨ next.underWay = true := by
  revert h ht
  cases t <;> cases next <;> decide

theorem State.closed_of_ended {c : State} (h : c.ended = true) : c.closed = true := by
  revert h
  cases c <;> decide

def FinishedAt (l : List Target) (i : Nat) : Prop :=
  ∃ t, l[i]? = some t ∧ t.state.finished = true

section

variable {l : List Target} {i j : Nat} {row : Target} {s s' : Store}

theorem FinishedAt.lt (h : FinishedAt l i) : i < l.length := by
  obtain ⟨t, ht, -⟩ := h
  exact (List.getElem?_eq_some_iff.mp ht).1

theorem finishedAt_set_self (hi : i < l.length) (hrow : row.state.finished = true) :
    FinishedAt (l.set i row) i :=
  ⟨row, getElem?_set_self hi, hrow⟩

theorem finishedAt_set_ne (hij : i ≠ j) : FinishedAt (l.set i row) j ↔ FinishedAt l j := by
  unfold FinishedAt
  rw [getElem?_set_ne hij]

theorem finished_of_finishedAt_set (h : FinishedAt (l.set i row) i) : row.state.finished = true := by
  have hlt : i < l.length := by simpa using h.lt
  obtain ⟨t, ht, hfin⟩ := h
  rw [getElem?_set_self hlt] at ht
  cases ht
  exact hfin

theorem allSettled_iff : s.AllSettled ↔ ∀ i < s.targets.length, FinishedAt s.targets i := by
  constructor
  · intro h i hi
    exact ⟨_, List.getElem?_eq_getElem hi, h _ (getElem_mem hi)⟩
  · intro h t ht
    obtain ⟨i, hi⟩ := getElem?_of_mem ht
    obtain ⟨u, hu, hfin⟩ := h i (List.getElem?_eq_some_iff.mp hi).1
    obtain rfl : t = u := Option.mem_unique hi hu
    exact hfin

theorem FinishedAt.ahead (h : FinishedAt s.targets i) (hs : Ahead s s') :
    FinishedAt s'.targets i := by
  obtain ⟨t, ht, hfin⟩ := h
  obtain ⟨r, hr, hrow⟩ := hs.row_of_copy ht
  rw [hrow.finished hfin] at hr
  exact ⟨t, hr, hfin⟩

theorem Store.AllSettled.ahead (h : s.AllSettled) (hs : Ahead s s') : s'.AllSettled := by
  rw [allSettled_iff] at h ⊢
  intro i hi
  have hlen := hs.rows.length_eq
  exact (h i (by omega)).ahead hs

end

/-! ## The requests of operators -/

section

variable {s s' : Store}

theorem carried_cancelTarget (takenBack : Bool) (t : Target) :
    (Store.cancelTarget takenBack t).state.finished = true ∨
      (Store.cancelTarget takenBack t).state.underWay = true := by
  unfold Store.cancelTarget
  split
  · exact .inl rfl
  next hstarted =>
    split
    · exact .inl rfl
    · split
      next hunder => exact .inr hunder
      next hunder =>
        left
        revert hstarted hunder
        cases t.state <;> decide

theorem closing_of_open (hopen : s.campaign.state.closed = false) : s.Closing := by
  constructor
  · intro h
    rw [State.closed_of_ended h] at hopen
    cases hopen
  · intro h
    rw [h] at hopen
    cases hopen

theorem closing_cancel (hs : s.Closing) (takenBack : Nat → Bool) : (s.cancel takenBack).Closing := by
  unfold Store.cancel
  split
  · exact hs
  · have hrows : ∀ u ∈ s.targets.mapIdx fun i t => Store.cancelTarget (takenBack i) t,
        u.state.finished = true ∨ u.state.underWay = true := by
      intro u hu
      obtain ⟨i, hi, rfl⟩ := mem_mapIdx.mp hu
      exact carried_cancelTarget _ _
    refine ⟨fun h t ht => ?_, fun _ => hrows⟩
    replace h : (if 0 < underWayTargets (s.targets.mapIdx fun i t =>
      Store.cancelTarget (takenBack i) t) then State.canceling else .canceled).ended = true := h
    split at h
    · cases h
    next hnone =>
      refine (hrows t ht).resolve_right fun hunder => hnone ?_
      exact countP_pos_iff.mpr ⟨t, ht, hunder⟩

theorem closing_skipTarget (hs : s.Closing) (i : Nat) : (s.skipTarget i).Closing := by
  unfold Store.skipTarget
  split
  · exact hs
  next hopen =>
    constructor
    · intro h
      refine absurd ?_ hopen
      revert h
      cases s.campaign.state <;> decide
    · intro h t ht
      rw [Store.modify_eq_mapIdx] at ht
      obtain ⟨j, hj, rfl⟩ := mem_mapIdx.mp ht
      have hrow := hs.draining h _ (getElem_mem hj)
      split
      · split
        · exact .inl rfl
        · exact hrow
      · exact hrow

theorem closing_other (hs : s.Closing) (h : Store.Other s s') : s'.Closing := by
  cases h with
  | pause =>
    unfold Store.pause
    split
    · refine closing_of_open ?_
      unfold pauseState
      split <;> rfl
    · exact hs
  | resume =>
    unfold Store.resume
    split
    · exact closing_of_open rfl
    · exact hs
  | cancel takenBack => exact closing_cancel hs takenBack
  | skipTarget i => exact closing_skipTarget hs i
  | advanceGate =>
    unfold Store.advanceGate
    split
    · exact closing_of_open rfl
    · exact hs
  | approve =>
    unfold Store.approve
    split
    · exact closing_of_open rfl
    · exact hs

theorem closing_others (hs : s.Closing) (h : Relation.ReflTransGen Store.Other s s') :
    s'.Closing := by
  induction h with
  | refl => exact hs
  | tail _ hlast ih => exact closing_other ih hlast

end

/-- The condition under which a statement keeps the invariant. -/
def EndCondition : Statement → Store → Prop
  | .update _ copy next _, _ => copy.state.mayBecome next = true
  | .launch _ copy next, _ => copy.state.mayBecome next = true
  | .writeState c next, s => c.revision = s.campaign.revision →
      next ≠ .canceling ∧ (next.ended = true → s.AllSettled)
  | .finishPlanning next, _ => next.closed = false
  | _, _ => True

section

variable {s : Store} {i : Nat}

theorem closing_writeTarget (hs : s.Closing) {copy : Target} {change : Target → Target}
    {next : TargetState} (hchange : ∀ t, (change t).state = next)
    (hlegal : copy.state.mayBecome next = true) : (s.writeTarget i copy change).2.Closing := by
  rcases Store.writeTarget_eq s i copy change with h | ⟨t, ht, -, hstate, h⟩
  · rw [h]
    exact hs
  rw [h]
  have hmem := mem_of_getElem? ht
  rw [← hstate] at hlegal
  have hopen := not_finished_of_mayBecome hlegal
  constructor
  · intro hended
    have hfin := hs.ended hended t hmem
    rw [hopen] at hfin
    cases hfin
  · intro hdraining u hu
    rcases Store.mem_withTarget hu with hu | rfl
    · exact hs.draining hdraining u hu
    rw [show ({ change t with revision := t.revision + 1 } : Target).state = next from hchange t]
    have hunder : t.state.underWay = true := by
      rcases hs.draining hdraining t hmem with hfin | hunder
      · rw [hopen] at hfin
        cases hfin
      · exact hunder
    exact TargetState.carried_of_mayBecome hlegal hunder

theorem closing_claimWave (hs : s.Closing) (wave : Int) (free : Nat → Bool) (limit : Nat) :
    (s.claimWave wave free limit).2.Closing := by
  have hrow : ∀ u ∈ (s.claimWave wave free limit).2.targets, ∃ t ∈ s.targets, u.state = t.state := by
    intro u hu
    obtain ⟨j, hj, rfl⟩ := mem_mapIdx.mp hu
    refine ⟨_, getElem_mem hj, ?_⟩
    split <;> rfl
  constructor
  · intro h u hu
    obtain ⟨t, ht, hstate⟩ := hrow u hu
    rw [hstate]
    exact hs.ended h t ht
  · intro h u hu
    obtain ⟨t, ht, hstate⟩ := hrow u hu
    rw [hstate]
    exact hs.draining h t ht

/-- **Every statement of a pass keeps the invariant of an end.** -/
theorem closing_step (c : Statement) (s : Store) (hc : EndCondition c s) (hs : s.Closing) :
    (Store.step c s).2.Closing := by
  cases c with
  | active | campaign | targets | lockForLaunch | setState => exact hs
  | update i copy next code => exact closing_writeTarget hs (fun _ => rfl) hc
  | launch i copy next =>
    refine iteInduction (motive := fun r => Store.Closing (Prod.snd r)) (fun _ => ?_) fun _ => hs
    exact closing_writeTarget hs (fun _ => rfl) hc
  | writeState copy next =>
    change (s.writeState copy next).2.Closing
    unfold Store.writeState
    split
    next hrev =>
      obtain ⟨hne, hend⟩ := hc hrev.symm
      exact ⟨hend, fun h => absurd h hne⟩
    · exact hs
  | finishPlanning next =>
    refine iteInduction (motive := fun r => Store.Closing (Prod.snd r)) (fun _ => ?_) fun _ => hs
    exact closing_of_open hc
  | claimWave wave free limit => exact closing_claimWave hs wave free limit

end

/-! ## Programs whose writes may fail -/

section

variable {spared : Statement → Bool}

/-- What a statement comes to: it fails, or it does what it does in an undisturbed run. -/
theorem Disturbed.step_cases (spared : Statement → Bool) (c : Statement) (d : Disturbed) :
    (∃ answer failures, c.failed = some answer ∧ spared c = false ∧
        Disturbed.step spared c d = (answer, ⟨d.store, failures⟩)) ∨
      ∃ failures, Disturbed.step spared c d =
        ((Store.step c d.store).1, ⟨(Store.step c d.store).2, failures⟩) := by
  unfold Disturbed.step
  split
  · exact .inr ⟨_, rfl⟩
  next answer hfailed =>
    split
    next h => exact .inl ⟨answer, _, hfailed, h.2, rfl⟩
    · exact .inr ⟨_, rfl⟩

theorem Disturbed.store_others {d d' : Disturbed} (h : Relation.ReflTransGen Disturbed.Other d d') :
    Relation.ReflTransGen Store.Other d.store d'.store :=
  h.lift Disturbed.store fun _ _ hstep => by
    cases hstep with
    | store h _ => exact h

/-- From a store, whatever fails, a program meets the conditions of its statements among
the requests of operators and ends in `Q`. -/
def SafeEnd (spared : Statement → Bool) {α : Type} (p : Pass α) (Q : α → Store → Prop) (s : Store) :
    Prop :=
  ∀ failures, Prog.Safe (Relation.ReflTransGen Disturbed.Other) (Disturbed.step spared)
    (fun c d => EndCondition c d.store) p (fun a d => Q a d.store) ⟨s, failures⟩

namespace SafeEnd

variable {α β : Type} {s : Store}

theorem pure {Q : α → Store → Prop} {a : α} (h : Q a s) :
    SafeEnd spared (Pure.pure a : Pass α) Q s := fun _ => Prog.safe_pure h

theorem bind {p : Pass α} {f : α → Pass β} {M : α → Store → Prop} {Q : β → Store → Prop}
    (hp : SafeEnd spared p M s) (hf : ∀ a s, M a s → SafeEnd spared (f a) Q s) :
    SafeEnd spared (p >>= f) Q s :=
  fun failures => Prog.safe_bind (hp failures) fun a d hd => hf a d.store hd d.failures

theorem map {p : Pass α} {f : α → β} {Q : β → Store → Prop}
    (hp : SafeEnd spared p (fun a s => Q (f a) s) s) : SafeEnd spared (f <$> p) Q s :=
  fun failures => Prog.safe_map (hp failures)

theorem mono {p : Pass α} {Q Q' : α → Store → Prop} (h : SafeEnd spared p Q s)
    (hQ : ∀ a s, Q a s → Q' a s) : SafeEnd spared p Q' s :=
  fun failures => (h failures).mono fun a d => hQ a d.store

/-- **The rule for a statement.** -/
theorem issue {c : Statement} {Q : c.Answer → Store → Prop}
    (h : ∀ s', Relation.ReflTransGen Store.Other s s' → EndCondition c s' ∧
      Q (Store.step c s').1 (Store.step c s').2 ∧
      ∀ answer, c.failed = some answer → spared c = false → Q answer s') :
    SafeEnd spared (Prog.issue c : Pass c.Answer) Q s := by
  intro failures
  apply Prog.safe_issue
  intro d hd
  obtain ⟨hcond, hdone, hfailed⟩ := h d.store (Disturbed.store_others hd)
  refine ⟨hcond, ?_⟩
  rcases Disturbed.step_cases spared c d with ⟨answer, rest, hanswer, hspared, hstep⟩ | ⟨rest, hstep⟩ <;>
    rw [hstep]
  · exact hfailed answer hanswer hspared
  · exact hdone

/-- **The rule for a loop.** -/
theorem each {γ ι : Type} {f : γ → ι → Pass (γ × Bool)} {J : List ι → γ → Store → Prop}
    {B : γ → Store → Prop} (hstep : ∀ i rest m s, J (i :: rest) m s →
      SafeEnd spared (f m i) (fun r s' => if r.2 then J rest r.1 s' else B r.1 s') s)
    (is : List ι) {m : γ} (hm : J is m s) :
    SafeEnd spared (Prog.each f is m) (fun r s' => if r.2 then J [] r.1 s' else B r.1 s') s :=
  fun _ => Prog.safe_each (J := fun rest m (d : Disturbed) => J rest m d.store)
    (B := fun m (d : Disturbed) => B m d.store)
    (fun i rest m d hm => hstep i rest m d.store hm d.failures) is hm

end SafeEnd

end

end Flotestro.Campaigns
