import Flotestro.Campaigns.Analysis.EndedRuns
import Flotestro.Campaigns.Analysis.Barrier

/-!
# Expiry, and the end of every run

A campaign whose plans ran out before any host started is ended by a pass that closes its hosts one
by one and does not look back.  With that the end of a campaign is settled for every run: it leaves
no open host behind, unless a write that closes a host of an expiring campaign fails.
-/

set_option autoImplicit false

namespace Flotestro.Campaigns

open Library List

/-! ## Plans that ran out -/

section

variable {m s s' : Store} {i : Nat} {rest : List Nat}

/-- Every host is finished or is still to be closed, unless the campaign was closed by
others. -/
def Pending (rest : List Nat) (m s : Store) : Prop :=
  ∀ i < s.targets.length, FinishedAt s.targets i ∨ s.campaign.state.closed = true ∨
    i ∈ rest ∧ s.targets[i]? = m.targets[i]?

theorem row_other (h : Store.Other s s') (i : Nat) :
    FinishedAt s'.targets i ∨ s'.campaign.state.closed = true ∨ s'.targets[i]? = s.targets[i]? := by
  cases h with
  | pause =>
    refine .inr (.inr ?_)
    unfold Store.pause
    split <;> rfl
  | resume =>
    refine .inr (.inr ?_)
    unfold Store.resume
    split <;> rfl
  | cancel takenBack =>
    unfold Store.cancel
    split
    · exact .inr (.inr rfl)
    · refine .inr (.inl ?_)
      change (if 0 < underWayTargets _ then State.canceling else .canceled).closed = true
      split <;> rfl
  | skipTarget j =>
    unfold Store.skipTarget
    split
    · exact .inr (.inr rfl)
    rw [Store.modify_eq_mapIdx]
    simp only [FinishedAt, getElem?_mapIdx]
    cases s.targets[i]? with
    | none => exact .inr (.inr rfl)
    | some t =>
      by_cases hskip : j = i ∧ t.state = .queuedOffline
      · simp only [Option.map_some, if_pos hskip.1, if_pos hskip.2]
        exact .inl ⟨_, rfl, rfl⟩
      refine .inr (.inr ?_)
      rw [Option.map_some]
      split
      next hj => rw [if_neg fun hq => hskip ⟨hj, hq⟩]
      · rfl
  | advanceGate =>
    refine .inr (.inr ?_)
    unfold Store.advanceGate
    split <;> rfl
  | approve =>
    refine .inr (.inr ?_)
    unfold Store.approve
    split <;> rfl

theorem Pending.others (h : Pending rest m s) (hs : Relation.ReflTransGen Store.Other s s') :
    Pending rest m s' := by
  induction hs with
  | refl => exact h
  | @tail s₁ s₂ _ hlast ih =>
    have hahead := Ahead.of_other hlast
    have hlen := hahead.rows.length_eq
    intro i hi
    rcases ih i (by omega) with hfin | hclosed | ⟨hrest, hrow⟩
    · exact .inl (hfin.ahead hahead)
    · exact .inr (.inl (hahead.closed hclosed))
    · rcases row_other hlast i with hfin | hclosed | heq
      · exact .inl hfin
      · exact .inr (.inl hclosed)
      · exact .inr (.inr ⟨hrest, heq.trans hrow⟩)

theorem Pending.done (h : Pending (i :: rest) m s)
    (hi : i < s.targets.length → FinishedAt s.targets i ∨ s.campaign.state.closed = true) :
    Pending rest m s := by
  intro j hj
  by_cases hji : j = i
  · subst hji
    rcases hi hj with hfin | hclosed
    · exact .inl hfin
    · exact .inr (.inl hclosed)
  · rcases h j hj with hfin | hclosed | ⟨hmem, hrow⟩
    · exact .inl hfin
    · exact .inr (.inl hclosed)
    · exact .inr (.inr ⟨(mem_cons.mp hmem).resolve_left hji, hrow⟩)

theorem writeTarget_ne_none {t : Target} {change : Target → Target}
    (ht : s.targets[i]? = some t) : (s.writeTarget i t change).1 ≠ none := by
  unfold Store.writeTarget
  rw [ht]
  simp

theorem Pending.written {t : Target} {change : Target → Target} (h : Pending (i :: rest) m s)
    (ht : m.targets[i]? = some t) (hchange : ∀ u, (change u).state.finished = true) :
    Pending rest (Pass.written m i t change (s.writeTarget i t change).1).1
      (s.writeTarget i t change).2 := by
  rcases Store.writeTarget_eq s i t change with hw | ⟨r, hr, -, -, hw⟩
  · have hne : s.targets[i]? ≠ some t := by
      intro hrow
      exact writeTarget_ne_none hrow (by rw [hw])
    rw [hw]
    refine h.done fun hi => ?_
    rcases h i hi with hfin | hclosed | ⟨-, hrow⟩
    · exact .inl hfin
    · exact .inr hclosed
    · exact absurd (hrow.trans ht) hne
  · rw [hw]
    intro j hj
    replace hj : j < s.targets.length := by simpa [Store.withTarget] using hj
    by_cases hij : i = j
    · subst hij
      exact .inl (finishedAt_set_self hj (hchange r))
    rcases h j hj with hfin | hclosed | ⟨hmem, hrow⟩
    · exact .inl ((finishedAt_set_ne hij).mpr hfin)
    · exact .inr (.inl hclosed)
    · refine .inr (.inr ⟨(mem_cons.mp hmem).resolve_left fun hji => hij hji.symm, ?_⟩)
      simp only [Store.withTarget, Pass.written, Pass.withRow]
      rw [getElem?_set_ne hij, getElem?_set_ne hij, hrow]

/-- What a turn of the loop over a campaign whose plans ran out leaves. -/
structure ClosedSoFar (c : Campaign) (rest : List Nat) (m s : Store) : Prop where
  copied : Copied m s
  campaign : m.campaign = c
  pending : Pending rest m s

theorem closes_closeOpen {c : Campaign} (h : ClosedSoFar c (i :: rest) m s) :
    SafeEnd Statement.closesStale (Pass.closeOpen (.other "plan_stale") m i)
      (fun r s' => if r.2 then ClosedSoFar c rest r.1 s' else False) s := by
  unfold Pass.closeOpen
  split
  next hnone =>
    refine .pure ⟨h.copied, h.campaign, h.pending.done fun hi => ?_⟩
    rw [h.copied.length] at hi
    rw [List.getElem?_eq_getElem hi] at hnone
    cases hnone
  next t ht =>
    split
    next hfin =>
      exact .pure ⟨h.copied, h.campaign, h.pending.done fun _ => .inl (h.copied.rows i ⟨t, ht, hfin⟩)⟩
    next hopen =>
      have hlegal : t.state.mayBecome .skipped = true :=
        TargetState.mayBecome_of_finished (by simpa using hopen) rfl
      unfold Pass.finishTarget Pass.updateTarget
      rw [if_pos hlegal]
      refine .bind (M := fun r s' => ClosedSoFar c rest r.1 s') (.bind (.issue fun s' hs' => ?_) fun answer s' hs' => .pure hs') ?_
      · have h' := h.copied.others hs'
        refine ⟨hlegal, ⟨?_, ?_, ?_⟩, fun answer _ hspared => absurd hspared ?_⟩
        · exact (Carried.written h' ht hlegal fun _ => rfl).copied
        · rw [← h.campaign]
          cases (Store.step (.update i t .skipped (.other "plan_stale")) s').1 <;> rfl
        · exact (h.pending.others hs').written ht fun _ => rfl
        · simp [Statement.closesStale]
      · rintro ⟨m', done⟩ s' hs'
        exact .pure hs'

end

/-- What is known of the store once the campaign was read. -/
structure CampaignCopied (c : Campaign) (s : Store) : Prop where
  closing : s.Closing
  revision : c.revision ≤ s.campaign.revision
  same : c.revision = s.campaign.revision → s.campaign.state = c.state
  draining : c.state = .canceling → s.campaign.state = .canceling

section

variable {c : Campaign} {s s' : Store} {facts : Facts}

/-- No request of an operator ends a drain. -/
theorem canceling_others (hs : Relation.ReflTransGen Store.Other s s')
    (h : s.campaign.state = .canceling) : s'.campaign.state = .canceling := by
  induction hs with
  | refl => exact h
  | tail _ hlast ih =>
    cases hlast with
    | pause => simp [Store.pause, ih, State.pausable]
    | resume => simp [Store.resume, ih]
    | cancel => simp [Store.cancel, ih]
    | skipTarget => simp [Store.skipTarget, ih, State.terminal]
    | advanceGate => simp [Store.advanceGate, ih]
    | approve => simp [Store.approve, ih]

section
variable (h : CampaignCopied c s)
include h

theorem CampaignCopied.others
    (hs : Relation.ReflTransGen Store.Other s s') : CampaignCopied c s' := by
  have hahead := Ahead.of_others hs
  refine ⟨closing_others h.closing hs, Nat.le_trans h.revision hahead.revision, fun heq => ?_,
    fun hc => canceling_others hs (h.draining hc)⟩
  have hle := h.revision
  have hle' := hahead.revision
  rw [(hahead.same (by omega)).1]
  exact h.same (by omega)

theorem CampaignCopied.copied : Copied ⟨c, s.targets⟩ s :=
  ⟨h.closing, rfl, fun _ hi => hi, h.revision, h.same⟩

theorem reads_targets {spared : Statement → Bool} :
    SafeEnd spared Pass.readTargets (fun l s' => l = s'.targets ∧ CampaignCopied c s') s :=
  .issue fun _ hs' => ⟨trivial, ⟨rfl, h.others hs'⟩, fun _ hanswer => absurd hanswer nofun⟩

theorem ends_expire (hopen : c.state.closed = false) :
    SafeEnd Statement.closesStale (Pass.expire c) (fun _ _ => True) s := by
  refine .bind (reads_targets h) ?_
  rintro l s₁ ⟨rfl, h₁⟩
  have hfirst : ClosedSoFar c (List.range s₁.targets.length) ⟨c, s₁.targets⟩ s₁ :=
    ⟨h₁.copied, rfl, fun i hi => .inr (.inr ⟨mem_range.mpr hi, rfl⟩)⟩
  refine .bind (SafeEnd.each (B := fun _ _ => False) (fun _ _ _ _ => closes_closeOpen) _ hfirst) ?_
  rintro ⟨m, goesOn⟩ s₂ hs₂
  cases goesOn with
  | false => exact absurd hs₂ id
  | true =>
    refine ends_endWith hs₂.copied fun _ => ?_
    by_cases hclosed : s₂.campaign.state.closed = true
    · refine .inr ⟨hclosed, ?_⟩
      rw [hs₂.campaign]
      exact hopen
    · refine .inl (allSettled_iff.mpr fun i hi => ?_)
      rcases hs₂.pending i hi with hfin | hclosed' | ⟨hmem, -⟩
      · exact hfin
      · exact absurd hclosed' hclosed
      · cases hmem

theorem ends_drive {spared : Statement → Bool} :
    SafeEnd spared (Pass.drive facts c) (fun _ _ => True) s := by
  refine .bind (reads_targets h) ?_
  rintro l s₁ ⟨rfl, h₁⟩
  split
  · exact ends_plan h₁.copied
  next hc => exact ends_drain h₁.copied (h₁.closing.draining (h₁.draining hc))
  · exact ends_settle h₁.copied
  · exact ends_settle h₁.copied
  · exact ends_rollOut h₁.copied

end

theorem ends_advance (hs : s.Closing) :
    SafeEnd Statement.closesStale (Pass.advance facts) (fun _ _ => True) s := by
  refine .bind (M := fun answer s' => ∀ c, answer = some c → CampaignCopied c s')
    (.issue fun s' hs' => ⟨trivial, ?_, fun _ hanswer => absurd hanswer nofun⟩) ?_
  · intro c hc
    obtain rfl := Option.some.inj (Option.ite_none_right_eq_some.mp hc).2
    exact ⟨closing_others hs hs', Nat.le_refl _, fun _ => rfl, id⟩
  · intro answer s₁ hread
    split
    · exact .pure trivial
    next c =>
      have h := hread c rfl
      split
      next hstate =>
        have hopen : c.state.closed = false := by
          rcases hstate with hc | ⟨hc, -⟩ <;> rw [hc] <;> rfl
        split
        · exact .pure trivial
        · split
          · exact ends_expire h hopen
          · split
            · exact .pure trivial
            · exact ends_drive h
      · exact ends_drive h

end

theorem closing_created {s : Store} (hs : Created s) : s.Closing := by
  cases hs with
  | create order plans waveSize ready aside settled =>
    refine closing_of_open ?_
    unfold firstState
    split
    · rfl
    · split <;> rfl

theorem disturbed_safe {x : Pass Unit × Disturbed}
    (hx : DisturbedReached Statement.closesStale x) : x.2.store.Closing := by
  refine (Interleaving.safe_of_reachable (P := fun c d => EndCondition c d.store)
    (fun _ => closing_created) ?_ ?_ ?_ hx).1
  · intro d d' hd hother
    cases hother with
    | store h _ => exact closing_other hd h
  · intro c d hc hd
    change (Disturbed.step Statement.closesStale c d).2.store.Closing
    rcases Disturbed.step_cases Statement.closesStale c d with
      ⟨answer, rest, -, -, hstep⟩ | ⟨rest, hstep⟩
    · rw [hstep]
      exact hd
    · rw [hstep]
      exact closing_step c d.store hc hd
  · rintro _ d ⟨facts, rfl⟩ hd
    exact ends_advance hd d.failures

/-- **An ended campaign has no open host.**  In every run in which every write of a target
may fail but those that close the hosts of an expiring campaign, the targets of a campaign that is
completed, failed, expired or canceled are all finished. -/
theorem ended_campaign_settled {x : Pass Unit × Disturbed}
    (hx : DisturbedReached Statement.closesStale x)
    (hended : x.2.store.campaign.state.ended = true) :
    ∀ t ∈ x.2.store.targets, t.state.finished = true :=
  (disturbed_safe hx).ended hended

/-! ### Two runs with a write that fails -/

/-- A pass that finds the plans of the small campaign too old, or not, among writes of
which the first fails. -/
def smallDisturbed (spared : Statement → Bool) (expired : Bool) : Pass Unit × Disturbed :=
  (DisturbedRollout spared).commands 10
    (Pass.advance { smoothFacts with plansExpired := some expired }, ⟨smallCampaign false, [true]⟩)

theorem reached_smallDisturbed (spared : Statement → Bool) (expired : Bool) :
    DisturbedReached spared (smallDisturbed spared expired) := by
  have hfirst : DisturbedReached spared (.ret (), ⟨smallCampaign false, [true]⟩) :=
    .first (created_smallCampaign false)
  exact (hfirst.step (.start ⟨_, rfl⟩)).commands 10

/-- A pass cannot claim a host; the campaign is canceled then. -/
theorem ended_campaign_settled_canceled :
    ((smallDisturbed Statement.closesStale false).2.store.cancel fun _ => false).campaign.state =
        .canceled ∧
      ∀ t ∈ ((smallDisturbed Statement.closesStale false).2.store.cancel fun _ => false).targets,
        t.state.finished = true := by
  have hx := (reached_smallDisturbed Statement.closesStale false).step
    (.other (.store (.cancel (fun _ => false) _) _))
  exact ⟨by decide, ended_campaign_settled hx (by decide)⟩

/-- The write that closes the first host of an expiring campaign fails, and the campaign is
ended with the host in its queue. -/
theorem expired_campaign_keeps_host :
    ∃ x, DisturbedReached (fun _ => false) x ∧ x.2.store.campaign.state = .expired ∧
      x.2.store.targets.map Target.state = [.pending, .skipped] ∧ Store.driven x.2.store = false :=
  ⟨_, reached_smallDisturbed _ true, by decide, by decide, by decide⟩

end Flotestro.Campaigns
