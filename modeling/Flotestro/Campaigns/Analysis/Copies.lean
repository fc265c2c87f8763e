import Flotestro.Campaigns.Analysis.Statements

/-!
# The copy of a pass

`Held m s` is what a pass knows of the store through its copy, at every point of the pass.  Requests
of operators and the writes of the pass keep it.  The lemmas here are the rules for the statements a
pass issues with its copy.
-/

set_option autoImplicit false

namespace Flotestro.Campaigns

open Library
open Prog (safe_pure safe_bind safe_issue)

/-- A program meets the conditions of its statements among the requests of operators. -/
abbrev SafePass {α : Type} (p : Pass α) (Q : α → Store → Prop) (s : Store) : Prop :=
  Prog.Safe (Relation.ReflTransGen Store.Other) Store.step Condition p Q s

/-- What a pass knows of the store through its copy. -/
structure Held (m s : Store) : Prop where
  invariant : Invariant s
  ahead : Ahead m s
  outside : ∀ t ∈ m.targets, t.wave < 0 → t.state.finished = true
  atGate : m.campaign.state = .manualGate → m.campaign.revision = s.campaign.revision →
    m.GateStands

/-- The copy allows a row to be given a state. -/
structure CopyMovable (m : Store) (t : Target) (next : TargetState) : Prop where
  work : next.underWay = true → t.state.underWay = true ∨ m.MayStart t
  queue : next.aside = true → 0 < t.wave →
    t.state.aside = true ∨ m.Opened ∨ m.campaign.state = .planning
  budget : m.campaign.state = .planning → next ≠ .awaitingBudget
  gate : m.campaign.state = .manualGate → t.state = .pending → next = .pending

theorem CopyMovable.pending {m : Store} {t : Target} : CopyMovable m t .pending where
  work hunder := absurd hunder (by decide)
  queue haside := absurd haside (by decide)
  budget _ := TargetState.noConfusion
  gate _ _ := rfl

namespace Held

variable {m s s' : Store} {i : Nat} {t : Target} {next : TargetState}

theorem others (h : Held m s) (hs : Relation.ReflTransGen Store.Other s s') : Held m s' where
  invariant := h.invariant.ahead (.of_others hs)
  ahead := h.ahead.trans (.of_others hs)
  outside := h.outside
  atGate hm hrev := by
    have hle := h.ahead.revision
    have hle' := (Ahead.of_others hs).revision
    exact h.atGate hm (by omega)

theorem movable (h : Held m s) (hlegal : t.state.mayBecome next = true)
    (hm : CopyMovable m t next) : s.Movable t next where
  legal := hlegal
  work hunder := by
    rcases hm.work hunder with hwork | ⟨hplan, hopened, hbound⟩
    · exact .inl hwork
    right
    refine ⟨fun hs => hplan (h.ahead.planning hs), fun hwave => (hopened hwave).ahead h.ahead, ?_⟩
    rw [h.ahead.order]
    have := Ahead.underWay_le h.ahead.rows
    omega
  queue haside hwave := by
    rcases hm.queue haside hwave with hqueue | hqueue | hqueue
    · exact .inl hqueue
    · exact .inr (.inl (hqueue.ahead h.ahead))
    · rcases h.ahead.planned hqueue with hs | hs
      · exact .inr (.inr (.inl hs))
      · exact .inr (.inr (.inr hs))
  budget hs := hm.budget (h.ahead.planning hs)
  gate hs := hm.gate (h.ahead.atGate hs).1

end Held

/-- The row moved on from the copy. -/
def Missed (s : Store) (i : Nat) (t : Target) : Prop :=
  ∀ r, s.targets[i]? = some r → t.revision < r.revision

section

variable {m s : Store} {i : Nat} {t : Target} {next : TargetState} {Q : Store × Bool → Store → Prop}

/-- A write of the pass either misses a row that moved on or goes into the row and into the
copy. -/
theorem Held.written {change : Target → Target} (h : Held m s) (ht : m.targets[i]? = some t)
    (hmov : s.Movable t next) (hchange : ∀ u, (change u).wave = u.wave ∧ (change u).state = next)
    (hmissed : Missed s i t → Q (m, false) s)
    (hdone : ∀ row, row.wave = t.wave → row.state = next → row.planJob = (change t).planJob →
      Held (m.withTarget i row) (s.withTarget i row) →
      Q (m.withTarget i row, true) (s.withTarget i row)) :
    Q (Pass.written m i t change (s.writeTarget i t change).1) (s.writeTarget i t change).2 := by
  obtain ⟨r, hr, hrow⟩ := h.ahead.row_of_copy ht
  unfold Store.writeTarget
  rw [hr]
  dsimp only
  by_cases hmatch : r.revision = t.revision ∧ r.state = t.state
  · obtain rfl := hrow.same hmatch.1.symm
    rw [if_pos hmatch]
    have hopen := not_finished_of_mayBecome hmov.legal
    refine hdone { change r with revision := r.revision + 1 } (hchange r).1 (hchange r).2 rfl ⟨?_, ?_, ?_, ?_⟩
    · apply Store.invariant_withTarget h.invariant hr
      · rw [show ({ change r with revision := r.revision + 1 } : Target).state = next from
          (hchange r).2]
        exact hmov
      · exact (hchange r).1
    · exact { h.ahead with rows := forall₂_set h.ahead.rows (RowAhead.refl _ _) i }
    · intro u hu huwave
      rcases Store.mem_withTarget hu with hu | rfl
      · exact h.outside u hu huwave
      have hwave : r.wave < 0 := by
        rw [← (hchange r).1]
        exact huwave
      have hfin := h.outside r (List.mem_of_getElem? ht) hwave
      rw [hopen] at hfin
      cases hfin
    · intro hm hrev
      exact (h.atGate hm hrev).withTarget ht hopen (hchange r).1
  · rw [if_neg hmatch]
    refine hmissed fun r' hr' => ?_
    obtain rfl : r = r' := Option.mem_unique hr hr'
    rcases Nat.lt_or_ge t.revision r.revision with hlt | hge
    · exact hlt
    · have hle := hrow.revision
      have heq := hrow.same (by omega)
      exact absurd ⟨by rw [heq], by rw [heq]⟩ hmatch

theorem Held.movable_row (h : Held m s) (ht : m.targets[i]? = some t) (hmov : s.Movable t next)
    {r : Target} (hr : s.targets[i]? = some r) (hrev : r.revision = t.revision) : s.Movable r next := by
  obtain ⟨r', hr', hrow⟩ := h.ahead.row_of_copy ht
  obtain rfl : r' = r := Option.mem_unique hr' hr
  rw [hrow.same hrev.symm]
  exact hmov

/-- **The rule for a write of a state.** -/
theorem safe_updateTarget {outcome : Outcome} (h : Held m s)
    (ht : m.targets[i]? = some t) (hm : CopyMovable m t outcome.1)
    (hmissed : ∀ s', Ahead s s' → Held m s' →
      (t.state.mayBecome outcome.1 = true → Missed s' i t) → Q (m, false) s')
    (hdone : ∀ s' row, Ahead s s' → row.wave = t.wave → row.state = outcome.1 →
      row.planJob = t.planJob → t.state.finished = false →
      Held (m.withTarget i row) (s'.withTarget i row) →
      Q (m.withTarget i row, true) (s'.withTarget i row)) :
    SafePass (Pass.updateTarget m i t outcome) Q s := by
  unfold Pass.updateTarget
  split
  next hlegal =>
    refine safe_bind (safe_issue (Q := fun answer s' =>
      Q (Pass.written m i t (Target.settled outcome.1 outcome.2) answer) s') ?_) ?_
    · intro s' hs'
      have h' := h.others hs'
      have hmov := h'.movable hlegal hm
      refine ⟨?_, ?_⟩
      · exact fun r hr hrev _ => h'.movable_row ht hmov hr hrev
      · refine h'.written ht hmov (fun _ => ⟨rfl, rfl⟩) (fun hmiss => ?_)
          fun row hwave hstate hjob hheld => ?_
        · exact hmissed s' (.of_others hs') h' fun _ => hmiss
        · exact hdone s' row (.of_others hs') hwave hstate hjob (not_finished_of_mayBecome hlegal) hheld
    · intro answer s' hs'
      exact safe_pure hs'
  next hlegal =>
    exact safe_pure (hmissed s (.refl s) h fun hl => absurd hl hlegal)

/-- **The rule for the start of a task.** -/
theorem safe_launch (h : Held m s)
    (ht : m.targets[i]? = some t) (hm : CopyMovable m t next)
    (hmissed : ∀ s', Ahead s s' → Held m s' → Q (m, false) s')
    (hdone : ∀ s' row, Ahead s s' → row.wave = t.wave → row.state = next →
      t.state.finished = false → Held (m.withTarget i row) (s'.withTarget i row) →
      Q (m.withTarget i row, true) (s'.withTarget i row)) :
    SafePass (Pass.launch m i t next) Q s := by
  unfold Pass.launch
  split
  next hlegal =>
    refine safe_bind (safe_issue (Q := fun answer s' =>
      Q (Pass.written m i t (Target.launched next) answer) s') ?_) ?_
    · intro s' hs'
      have h' := h.others hs'
      have hmov := h'.movable hlegal hm
      refine ⟨?_, ?_⟩
      · exact fun _ r hr hrev _ => h'.movable_row ht hmov hr hrev
      · have hmiss := hmissed s' (.of_others hs') h'
        refine iteInduction (motive := fun r => Q (Pass.written m i t (Target.launched next) (Prod.fst r)) r.2)
          (fun _ => h'.written ht hmov (fun _ => ⟨rfl, rfl⟩) (fun _ => hmiss) ?_) fun _ => hmiss
        intro row hwave hstate _ hheld
        exact hdone s' row (.of_others hs') hwave hstate (not_finished_of_mayBecome hlegal) hheld
    · intro answer s' hs'
      exact safe_pure hs'
  · exact safe_pure (hmissed s (.refl s) h)

end

section

variable {m s : Store} {next : State}

theorem rows_moved {now : State} {l l' : List Target} (h : List.Forall₂ (RowAhead now) l l')
    (hmay : now.mayBecome next = true) : List.Forall₂ (RowAhead next) l l' := by
  refine h.imp fun t r hrow => ?_
  refine hrow.trans ?_ ?_ (.refl next r)
  · intro hclosed
    by_contra hopen
    rw [(Store.open_of_mayBecome hmay (by simpa using hopen)).1] at hclosed
    exact Bool.false_ne_true hclosed
  · intro hplan
    exact absurd hplan (Store.not_planning_of_mayBecome hmay)

theorem Ahead.reread (h : Ahead m s) : Ahead { m with campaign := s.campaign } s :=
  { Ahead.refl s with rows := h.rows }

/-- What an attempt of `SetState` leaves when it goes through. -/
theorem Ahead.writeState (h : Ahead m s) (hrev : m.campaign.revision = s.campaign.revision)
    (hmay : s.campaign.state.mayBecome next = true) : Ahead { m with campaign :=
          { m.campaign with state := next, revision := s.campaign.revision + 1 } }
      (s.writeState m.campaign next).2 := by
  unfold Store.writeState
  rw [if_pos hrev.symm]
  have hgate := (h.same hrev).2
  exact
    { rows := rows_moved h.rows hmay
      order := h.order
      revision := Nat.le_refl _
      same := fun _ => ⟨rfl, hgate⟩
      advanced := h.advanced
      gateless := fun _ => hgate
      atGate := fun hs => ⟨hs, hgate⟩
      planning := fun hs => hs
      planned := fun hs => .inl hs
      closed := fun hs => hs }

/-- A gate stands before the waves of the copy, a host behind it holds its wave, and the
campaign does not stand at it. -/
structure GateAhead (m : Store) : Prop where
  stands : m.GateStands
  holds : ∃ t ∈ m.targets, 0 < t.wave ∧ t.state.finished = false ∧ t.state ≠ .queuedOffline
  before : m.campaign.state ≠ .manualGate

theorem GateAhead.reread (hm : GateAhead m) (h : Ahead m s)
    (hstate : s.campaign.state = m.campaign.state) :
    GateAhead { m with campaign := s.campaign } where
  stands := hm.stands.congr rfl h.order (h.gateless hm.before)
  holds := hm.holds
  before := by
    rw [hstate]
    exact hm.before

theorem not_opened_of_gateStands (hs : s.GateStands) : ¬s.Opened := by
  rintro ⟨_, hopened⟩
  rcases hopened with hgate | ⟨hgate, hex⟩
  · rw [hs.2.1] at hgate
    exact Bool.false_ne_true hgate
  rcases hs.2.2 with h | h
  · rw [hgate] at h
    exact Bool.false_ne_true h
  · rw [hex] at h
    exact Bool.false_ne_true h

/-- A host that holds its wave behind a gate that stands waits for its start. -/
theorem GateAhead.waveWaits (hm : GateAhead m) (hs : Invariant s) (h : Ahead m s)
    (hopen : s.campaign.state.closed = false) (hplan : s.campaign.state ≠ .planning)
    (hstands : s.GateStands) : s.WaveWaits := by
  obtain ⟨t, ht, hwave, hfin, hqueued⟩ := hm.holds
  obtain ⟨i, hi⟩ := List.getElem?_of_mem ht
  obtain ⟨r, hr, hrow⟩ := h.row_of_copy hi
  have hmem := List.mem_of_getElem? hr
  have hstate := hrow.state_eq (hrow.kept hopen hqueued hfin)
  have hclosed := not_opened_of_gateStands hstands
  rw [← hrow.wave] at hwave
  have hwork : r.state.underWay ≠ true := fun hu => hclosed (hs.started r hmem hwave hu)
  have haside : r.state.aside ≠ true := fun ha =>
    hclosed (hs.queued hopen hplan r hmem hwave ha)
  refine ⟨r, hmem, hwave, ?_⟩
  rw [← hstate] at hfin
  revert hwork haside hfin
  cases r.state <;> decide

/-- What is known of the copy after a `SetState` that went through. -/
structure Moved (m : Store) (next : State) (m' s : Store) : Prop where
  invariant : Invariant s
  ahead : Ahead m' s
  state : m'.campaign.state = next
  order : m'.campaign.order = m.campaign.order
  advanced : m.campaign.gateAdvanced = true → m'.campaign.gateAdvanced = true
  targets : m'.targets = m.targets

theorem safe_attempts (n : Nat) (hs : Invariant s) (h : Ahead m s)
    (hgate : next = .manualGate → GateAhead m) : SafePass (Pass.attempts next n m.campaign)
      (fun r s' => r.2 = true → Moved m next { m with campaign := r.1 } s') s := by
  induction n generalizing m s with
  | zero => exact safe_pure nofun
  | succ n ih =>
    unfold Pass.attempts
    split
    next hmay =>
      -- What the statement finds: the row as the copy has it, or a row that moved.
      refine safe_bind (safe_issue (Q := fun answer s' =>
        (answer = none ∧ Invariant s' ∧ Ahead m s') ∨
          ∃ revision, answer = some revision ∧ Moved m next
            { m with campaign := { m.campaign with state := next, revision := revision } } s') ?_) ?_
      · intro s' hs'
        have hinv := hs.ahead (.of_others hs')
        have hahead := h.trans (.of_others hs')
        have hcond : Condition (.writeState m.campaign next) s' := by
          intro hrev
          have hstate := (hahead.same hrev).1
          refine ⟨by rw [hstate]; exact hmay, fun hnext => ?_⟩
          have hstands := (hgate hnext).stands.ahead hahead (hahead.same hrev).2
          obtain ⟨hopen, hplan⟩ := Store.open_of_mayBecome hmay (by rw [hnext]; rfl)
          refine ⟨hstands, (hgate hnext).waveWaits hinv hahead ?_ ?_ hstands⟩
          · rw [hstate]
            exact hopen
          · rw [hstate]
            exact hplan
        refine ⟨hcond, ?_⟩
        by_cases hrev : m.campaign.revision = s'.campaign.revision
        · right
          refine ⟨s'.campaign.revision + 1, ?_, ?_⟩
          · rw [Store.step_writeState_of hrev]
          · exact
              { invariant := invariant_step _ _ hcond hinv
                ahead := hahead.writeState hrev (hcond hrev).1
                state := rfl
                order := rfl
                advanced := id
                targets := rfl }
        · left
          rw [Store.step_writeState_of_not hrev]
          exact ⟨rfl, hinv, hahead⟩
      · rintro answer s₁ (⟨rfl, hinv, hahead⟩ | ⟨revision, rfl, hmoved⟩)
        · refine safe_bind (safe_issue (Q := fun c s' =>
            c = s'.campaign ∧ Invariant s' ∧ Ahead m s') ?_) ?_
          · intro s' hs'
            exact ⟨trivial, rfl, hinv.ahead (.of_others hs'), hahead.trans (.of_others hs')⟩
          · rintro c s₂ ⟨rfl, hinv₂, hahead₂⟩
            split
            next hstate =>
              have hnext := ih hinv₂ hahead₂.reread
                fun hn => (hgate hn).reread hahead₂ hstate
              refine hnext.mono fun r s₃ hr hdone => ?_
              have hmoved := hr hdone
              exact
                { hmoved with
                  order := hmoved.order.trans hahead₂.order
                  advanced := fun ha => hmoved.advanced (hahead₂.advanced ha)
                  targets := rfl }
            · exact safe_pure nofun
        · exact safe_pure fun _ => hmoved
    · exact safe_pure nofun

section
variable (h : Held m s)
  (hlegal : ∀ s', Held m s' → m.campaign.revision = s'.campaign.revision →
    m.campaign.state.mayBecome next = true) (hgate : next = .manualGate → GateAhead m)
include h hlegal hgate

/-- **The rule for `SetState`.** -/
theorem safe_setState :
    SafePass (Pass.setState m next) (fun r s' => r.2 = true → Moved m next r.1 s') s := by
  refine safe_bind (safe_issue (Q := fun _ s' => Held m s') ?_) ?_
  · intro s' hs'
    have h' := h.others hs'
    exact ⟨fun hrev => ⟨(h'.ahead.same hrev).1.symm, hlegal s' h' hrev⟩, h'⟩
  · intro _ s₁ h₁
    refine safe_bind (safe_attempts 3 h₁.invariant h₁.ahead hgate) ?_
    rintro ⟨c, done⟩ s₂ hmoved
    exact safe_pure hmoved

theorem safe_endWith : SafePass (Pass.endWith m next) (fun _ _ => True) s := by
  refine safe_bind (safe_setState h hlegal hgate) ?_
  intro _ _ _
  exact safe_pure trivial

end

/-- After a `SetState` into a state other than the gate the pass holds its copy again. -/
theorem Moved.held {m' : Store} (h : Moved m next m' s) (hm : ∀ t ∈ m.targets, t.wave < 0 →
    t.state.finished = true) (hnext : next ≠ .manualGate) : Held m' s where
  __ := h
  outside := by
    rw [h.targets]
    exact hm
  atGate hm := absurd (h.state.symm.trans hm) hnext

theorem Moved.opened {m' : Store} (h : Moved m next m' s) (hm : m.Opened) : m'.Opened :=
  hm.congr (by rw [h.targets]) h.order h.advanced

end

end Flotestro.Campaigns
