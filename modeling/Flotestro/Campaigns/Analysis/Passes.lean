import Flotestro.Campaigns.Analysis.Waves

/-!
# Whole passes

The planning phase, the other ways of a pass, and the pass as a whole: from a store that satisfies
the invariant, every statement of a pass meets its condition, whatever operators ask for meanwhile.
-/

set_option autoImplicit false

namespace Flotestro.Campaigns

open Library List
open Prog (safe_pure safe_bind safe_map safe_issue)

section

variable {m s : Store} {i : Nat} {t : Target} {outcome : Outcome} {facts : Facts}

theorem planning_gate (hplan : m.campaign.state = .planning) :
    m.campaign.state = .manualGate → t.state ≠ .pending := by
  rw [hplan]
  exact fun h => State.noConfusion h

theorem row_of_withTarget {r row : Target} (h : (s.withTarget i row).targets[i]? = some r) :
    row = r := by
  have hlt : i < s.targets.length := by
    have := List.getElem?_eq_some_iff.mp h
    simpa [Store.withTarget] using this.1
  exact Option.some.inj ((getElem?_set_self hlt).symm.trans h)

/-- A host that ends in its planning is settled, even when an operator was faster. -/
theorem settled_finishTarget (h : Held m s) (ht : m.targets[i]? = some t)
    (hplan : m.campaign.state = .planning) (hopen : t.state.finished = false)
    (hfin : outcome.1.finished = true) : SafePass (Pass.finishTarget m i t outcome)
      (fun r s' => Kept m i s r s' ∧ Settled s' i) s := by
  have hlegal := TargetState.mayBecome_of_finished hopen hfin
  refine safe_bind (M := fun r s' => Kept m i s (r.1, true) s' ∧ Settled s' i)
    (safe_updateTarget h ht (copyMovable_finished hfin (planning_gate hplan)) ?_ ?_) ?_
  · intro s' hs' h' hmissed
    refine ⟨.missed h' hs' _, fun hplan' r hr => ?_⟩
    obtain ⟨u, hu, hrow⟩ := h'.ahead.row hr
    obtain rfl : t = u := Option.mem_unique ht hu
    exact TargetState.aside_of_finished (hrow.fresh hplan' (hmissed hlegal r hr))
  · intro s' row hs' hwave hstate _ _ h'
    refine ⟨.written ht hwave hopen ?_ h' hs' _, ?_⟩
    · rw [hstate, TargetState.underWay_of_finished hfin]
      exact nofun
    · intro _ r hr
      obtain rfl := row_of_withTarget hr
      rw [hstate]
      exact TargetState.aside_of_finished hfin
  · rintro ⟨m', done⟩ s' hs'
    exact safe_pure hs'

theorem settled_accept (h : Held m s) (ht : m.targets[i]? = some t) :
    SafePass (Pass.updateTarget m i t (.pending, .none))
      (fun r s' => Kept m i s r s' ∧ (r.2 = true → Settled s' i)) s := by
  apply safe_updateTarget h ht .pending
  · intro s' hs' h' _
    exact ⟨.missed h' hs' _, nofun⟩
  · intro s' row hs' hwave hstate _ hopen h'
    refine ⟨.written ht hwave hopen (by rw [hstate]; exact nofun) h' hs' _, fun _ _ r hr => ?_⟩
    obtain rfl := row_of_withTarget hr
    rw [hstate]
    rfl

variable (h : Held m s) (ht : m.targets[i]? = some t) (hplan : m.campaign.state = .planning)

include h ht hplan in
theorem kept_orderPlan : SafePass (Pass.orderPlan facts m i t) (Kept m i s) s := by
  unfold Pass.orderPlan
  split
  · exact kept_close h ht rfl (planning_gate hplan)
  · exact kept_holdOffline h ht (fun _ => .inr (.inr hplan)) (planning_gate hplan)
  · split
    · exact kept_refuse h ht (planning_gate hplan)
    · exact kept_launchPlanning h ht (fun _ => .inr (.inr hplan)) (planning_gate hplan)

include h ht hplan in
theorem kept_recheckOfflinePlanning :
    SafePass (Pass.recheckOfflinePlanning facts m i t) (Kept m i s) s := by
  unfold Pass.recheckOfflinePlanning
  split
  · exact kept_close h ht rfl (planning_gate hplan)
  · split
    · exact kept_close h ht rfl (planning_gate hplan)
    · exact safe_pure (.refl h i _)
  · refine safe_bind (settled_accept h ht) ?_
    rintro ⟨m', done⟩ s₁ ⟨hkept, -⟩
    have hplan' : m'.campaign.state = .planning := by
      rw [hkept.follows.campaign]
      exact hplan
    dsimp only
    split
    next u _ hu =>
      refine (kept_orderPlan hkept.held hu hplan').mono fun r s₂ hr => ?_
      exact ⟨hr.held, hkept.follows.trans hr.follows,
        fun j hij hj => hr.settled j hij (hkept.settled j hij hj)⟩
    · exact safe_pure ⟨hkept.held, hkept.follows, hkept.settled⟩

end

/-! ### The planning loop -/

section

variable {s : Store} {p : Pass.Planning} {i : Nat} {t : Target} {facts : Facts}

/-- What a turn of the planning loop leaves: a host is counted only when its planning is
settled. -/
structure Counted (p : Pass.Planning) (i : Nat) (s : Store) (r : Pass.Planning × Bool)
    (s' : Store) : Prop where
  kept : Kept p.copy i s (r.1.copy, r.2) s'
  count : r.1.settled = p.settled ∨
    r.1.settled = p.settled + 1 ∧ (r.2 = true → Settled s' i)

theorem counted_zero {q : Pass (Store × Bool)} (hq : SafePass q (Kept p.copy i s) s) :
    SafePass (p.after 0 <$> q) (Counted p i s) s := by
  apply safe_map
  exact hq.mono fun r s' hr => ⟨hr, .inl rfl⟩

theorem counted_one {q : Pass (Store × Bool)}
    (hq : SafePass q (fun r s' => Kept p.copy i s r s' ∧ (r.2 = true → Settled s' i)) s) :
    SafePass (p.after 1 <$> q) (Counted p i s) s := by
  apply safe_map
  exact hq.mono fun r s' hr => ⟨hr.1, .inr ⟨rfl, hr.2⟩⟩

theorem counted_refl (h : Held p.copy s) (goesOn : Bool) : Counted p i s (p, goesOn) s :=
  ⟨.refl h i _, .inl rfl⟩

variable (h : Held p.copy s) (ht : p.copy.targets[i]? = some t)
  (hplan : p.copy.campaign.state = .planning) (hopen : t.state.finished = false)

include h ht in
theorem counted_finished (hfin : t.state.finished = true) :
    Counted p i s ({ p with settled := p.settled + 1 }, true) s := by
  refine ⟨.refl h i _, .inr ⟨rfl, fun _ _ r hr => ?_⟩⟩
  obtain ⟨u, hu, hrow⟩ := h.ahead.row hr
  obtain rfl : t = u := Option.mem_unique ht hu
  rw [hrow.finished hfin]
  exact TargetState.aside_of_finished hfin

include h ht hplan hopen in
theorem counted_close {outcome : Outcome} (hfin : outcome.1.finished = true) :
    SafePass (p.after 1 <$> Pass.finishTarget p.copy i t outcome) (Counted p i s) s :=
  counted_one ((settled_finishTarget h ht hplan hopen hfin).mono fun _ _ hr => ⟨hr.1, fun _ => hr.2⟩)

include h ht hplan hopen in
theorem counted_collectPlan : SafePass (Pass.collectPlan facts p i t) (Counted p i s) s := by
  unfold Pass.collectPlan
  split
  · exact safe_pure (counted_refl h _)
  split
  · exact safe_pure (counted_refl h _)
  · exact safe_pure (counted_refl h _)
  · exact counted_close h ht hplan hopen rfl
  · exact counted_close h ht hplan hopen rfl
  · exact counted_close h ht hplan hopen rfl
  · exact counted_close h ht hplan hopen rfl
  · exact counted_one (settled_accept h ht)

include h hplan in
theorem counted_planHost : SafePass (Pass.planHost facts p i) (Counted p i s) s := by
  unfold Pass.planHost
  split
  · exact safe_pure (counted_refl h _)
  next t ht =>
    split
    next hfin => exact safe_pure (counted_finished h ht hfin)
    next hopen =>
      replace hopen : t.state.finished = false := by simpa using hopen
      split
      · split
        · exact counted_collectPlan h ht hplan hopen
        · exact counted_zero (kept_orderPlan h ht hplan)
      · exact counted_collectPlan h ht hplan hopen
      · exact counted_zero (kept_recheckOfflinePlanning h ht hplan)
      · exact safe_pure (counted_refl h _)

include h hplan in
theorem counted_planFromOrderHost :
    SafePass (Pass.planFromOrderHost facts p i) (Counted p i s) s := by
  unfold Pass.planFromOrderHost
  split
  · exact safe_pure (counted_refl h _)
  next t ht =>
    split
    next hfin => exact safe_pure (counted_finished h ht hfin)
    next hopen =>
      replace hopen : t.state.finished = false := by simpa using hopen
      split
      · exact safe_pure (counted_refl h _)
      · split
        · exact counted_close h ht hplan hopen rfl
        · exact safe_pure (counted_refl h _)
        have hmov : CopyMovable p.copy t .planning :=
          copyMovable_aside rfl (by decide) (fun _ => .inr (.inr hplan)) (planning_gate hplan)
        refine safe_bind (kept_updateTarget h ht hmov nofun) ?_
        rintro ⟨m', done⟩ s₁ hkept
        dsimp only
        split
        next u _ hu =>
          apply safe_map
          refine (settled_accept hkept.held hu).mono fun r s₂ hr => ?_
          refine ⟨⟨hr.1.held, hkept.follows.trans hr.1.follows, ?_⟩, .inr ⟨rfl, hr.2⟩⟩
          exact fun j hij hj => hr.1.settled j hij (hkept.settled j hij hj)
        · exact safe_pure ⟨⟨hkept.held, hkept.follows, hkept.settled⟩, .inl rfl⟩

end

section

variable {m s : Store} {facts : Facts}

theorem safe_failPlanning (h : Held m s) (hplan : m.campaign.state = .planning) :
    SafePass (Pass.failPlanning m) (fun _ _ => True) s := by
  refine safe_bind (kept_forTargets (C := fun c => c.state = .planning)
    (fun m s i h hc => kept_closeOpen h (by rw [hc]; decide)) h hplan) ?_
  rintro ⟨m', _⟩ s₁ ⟨h₁, hfollows⟩
  apply safe_endWith h₁
  · intro _ _ _
    rw [hfollows.campaign, hplan]
    rfl
  · exact fun h => State.noConfusion h

theorem settleCampaignState_eq (counts : Tally) :
    settleCampaignState counts = .failed ∨ settleCampaignState counts = .completedWithIssues ∨
      settleCampaignState counts = .completed := by
  unfold settleCampaignState
  split
  · exact .inl rfl
  · split
    · exact .inr (.inl rfl)
    · exact .inr (.inr rfl)

/-- A campaign may be completed from every state in which hosts start. -/
theorem safe_complete (h : Held m s)
    (hc : ∀ s', Held m s' → m.campaign.revision = s'.campaign.revision →
      m.campaign.state.launching = true) : SafePass (Pass.complete m) (fun _ _ => True) s := by
  have hstate := settleCampaignState_eq (tallyTargets m.targets)
  apply safe_endWith h
  · intro s' h' hrev
    have hlaunching := hc s' h' hrev
    rcases hstate with hs | hs | hs <;> rw [hs] <;> revert hlaunching <;>
      cases m.campaign.state <;> decide
  · intro hn
    rcases hstate with hs | hs | hs <;> rw [hs] at hn <;> exact State.noConfusion hn

section
variable (h : Held m s) (hplan : m.campaign.state = .planning)
include h hplan

theorem safe_finishPlanning (hsettled : ∀ j < m.targets.length, Settled s j) :
    SafePass (Pass.finishPlanning facts m) (fun _ _ => True) s := by
  unfold Pass.finishPlanning
  split
  · split
    · exact safe_failPlanning h hplan
    · exact safe_complete h fun _ _ _ => by rw [hplan]; rfl
  · split
    · exact safe_pure trivial
    · exact safe_failPlanning h hplan
    · refine safe_bind (M := fun _ _ => True) (safe_issue ?_)
        fun _ _ _ => safe_pure trivial
      intro s' hs'
      refine ⟨fun hplan' => ⟨?_, fun t ht _ => ?_⟩, trivial⟩
      · split
        · exact .inr rfl
        · exact .inl rfl
      · obtain ⟨j, hj⟩ := getElem?_of_mem ht
        obtain ⟨u, hu, _⟩ := (h.others hs').ahead.row hj
        have hlt := (List.getElem?_eq_some_iff.mp hu).1
        exact (hsettled j hlt).ahead (.of_others hs') hplan' t hj

/-- The planning loop.  Counted hosts and hosts still to come are no more than all, and
when they are all, every host before is settled. -/
theorem safe_planAll {f : Pass.Planning → Nat → Pass (Pass.Planning × Bool)}
    (hf : ∀ p s i, Held p.copy s → p.copy.campaign.state = .planning →
      SafePass (f p i) (Counted p i s) s) :
    SafePass (Pass.planAll facts f m) (fun _ _ => True) s := by
  set n := m.targets.length with hn
  refine safe_bind (Prog.safe_each (J := fun rest (p : Pass.Planning) s' =>
      Held p.copy s' ∧ Follows m p.copy ∧ p.settled + rest.length ≤ n ∧
        (p.settled + rest.length = n → ∀ j < n, j ∉ rest → Settled s' j))
    (B := fun _ _ => True) ?_ (List.range n) ?_) ?_
  · rintro i rest p s₁ ⟨h₁, hfollows, hle, hall⟩
    refine (hf p s₁ i h₁ (by rw [hfollows.campaign]; exact hplan)).mono ?_
    rintro ⟨p', goesOn⟩ s₂ ⟨hkept, hcount⟩
    cases goesOn with
    | false => trivial
    | true =>
      rw [length_cons] at hle hall
      refine ⟨hkept.held, hfollows.trans hkept.follows, ?_, ?_⟩
      · omega
      · intro heq j hj hjrest
        rcases hcount with hc | ⟨hc, hi⟩
        · omega
        by_cases hji : j = i
        · rw [hji]
          exact hi rfl
        · apply hkept.settled j hji
          apply hall (by omega) j hj
          rw [mem_cons]
          exact fun hmem => hmem.elim hji hjrest
  · refine ⟨h, .refl m, by simp, fun _ j hj hnot => ?_⟩
    exact absurd (mem_range.mpr hj) hnot
  · rintro ⟨p, goesOn⟩ s₁ hr
    cases goesOn with
    | false => exact safe_pure trivial
    | true =>
      obtain ⟨h₁, hfollows, hle, hall⟩ := hr
      have hlen : p.copy.targets.length = n := by
        have := congrArg List.length hfollows.waves
        simpa using this
      simp only [Bool.not_true, Bool.false_eq_true, if_false]
      split
      · exact safe_pure trivial
      next hcount =>
        dsimp only at hle hall
        apply safe_finishPlanning h₁ (by rw [hfollows.campaign]; exact hplan)
        dsimp only
        intro j hj
        exact hall (by omega) j (by omega) not_mem_nil

theorem safe_plan : SafePass (Pass.plan facts m) (fun _ _ => True) s := by
  unfold Pass.plan
  split
  · split
    · exact safe_failPlanning h hplan
    · split
      · exact safe_pure trivial
      · exact safe_planAll h hplan fun _ _ _ h hp => counted_planFromOrderHost h hp
  · split
    · exact safe_failPlanning h hplan
    · split
      · exact safe_pure trivial
      · exact safe_planAll h hplan fun _ _ _ h hp => counted_planHost h hp

end

end

/-! ## The other ways of a pass -/

section

variable {m s : Store} {facts : Facts}

theorem safe_progress (h : Held m s) : SafePass (Pass.forTargets (Pass.progress facts) m)
    (fun r s' => Held r.1 s' ∧ Follows m r.1) s :=
  kept_forTargets (C := fun _ => True) (fun _ _ _ h _ => kept_progress h) h trivial

theorem safe_settle (h : Held m s) : SafePass (Pass.settle facts m) (fun _ _ => True) s := by
  unfold Pass.settle
  split
  · exact safe_pure trivial
  · refine safe_bind (safe_progress h) ?_
    rintro ⟨m', _⟩ s₁ ⟨h₁, hfollows⟩
    dsimp only
    split
    · exact safe_pure trivial
    next hpausing =>
      rw [not_or, not_not] at hpausing
      apply safe_endWith h₁
      · intro _ _ _
        rw [hpausing.1]
        rfl
      · exact fun h => State.noConfusion h

theorem safe_drain (h : Held m s) (hc : m.campaign.state = .canceling) :
    SafePass (Pass.drain facts m) (fun _ _ => True) s := by
  unfold Pass.drain
  split
  · exact safe_pure trivial
  · refine safe_bind (safe_progress h) ?_
    rintro ⟨m', _⟩ s₁ ⟨h₁, hfollows⟩
    dsimp only
    split
    · exact safe_pure trivial
    · apply safe_endWith h₁
      · intro _ _ _
        rw [hfollows.campaign, hc]
        rfl
      · exact fun h => State.noConfusion h

theorem safe_pauseCampaign (h : Held m s) (hc : Rollable m.campaign) :
    SafePass (Pass.pauseCampaign m) (fun _ _ => True) s := by
  have hpause := Store.pauseState_eq m.targets
  apply safe_endWith h
  · intro _ _ _
    unfold Rollable at hc
    rcases hpause with hp | hp <;> rw [hp] <;> revert hc <;> cases m.campaign.state <;> decide
  · intro hn
    rcases hpause with hp | hp <;> rw [hp] at hn <;> exact State.noConfusion hn

theorem Held.not_atGate (h : Held m s) (hall : allFinished m.targets = true)
    (hrev : m.campaign.revision = s.campaign.revision) : m.campaign.state ≠ .manualGate := by
  intro hm
  have hs : s.campaign.state = .manualGate := (h.ahead.same hrev).1.trans hm
  obtain ⟨r, hr, _, hpending⟩ := (h.invariant.gate hs).2
  obtain ⟨t, ht, hrow⟩ := h.ahead.mem hr
  have hstate := hrow.state_eq (by rw [hpending]; rfl)
  have hfin := all_eq_true.mp hall t ht
  rw [← hstate, hpending] at hfin
  cases hfin

theorem safe_rollOut (h : Held m s) (hc : Rollable m.campaign) :
    SafePass (Pass.rollOut facts m) (fun _ _ => True) s := by
  unfold Pass.rollOut
  split
  · exact safe_pure trivial
  · refine safe_bind (safe_progress h) ?_
    rintro ⟨m₁, _⟩ s₁ ⟨h₁, hfollows₁⟩
    have hc₁ : Rollable m₁.campaign := by
      rw [hfollows₁.campaign]
      exact hc
    dsimp only
    split
    · exact safe_pauseCampaign h₁ hc₁
    · split
      · exact safe_pauseCampaign h₁ hc₁
      · split
        · exact safe_pauseCampaign h₁ hc₁
        · split
          next hall =>
            apply safe_complete h₁
            intro s' h' hrev
            have hgate := h'.not_atGate hall hrev
            revert hc₁ hgate
            unfold Rollable
            cases m₁.campaign.state <;> decide
          · refine safe_bind (kept_forTargets (C := fun _ => True)
              (fun m s i h _ => kept_serviceOffline h) h₁ trivial) ?_
            rintro ⟨m₂, goesOn⟩ s₂ ⟨h₂, hfollows₂⟩
            have hc₂ : Rollable m₂.campaign := by
              rw [hfollows₂.campaign]
              exact hc₁
            split
            · exact safe_pure trivial
            · split
              · exact safe_pure trivial
              · split
                · exact safe_pure trivial
                · exact safe_startWave h₂ hc₂

def CampaignRead (c : Campaign) (s : Store) : Prop :=
  Invariant s ∧ ∃ s₀ : Store, s₀.campaign = c ∧ Ahead s₀ s

theorem CampaignRead.others {c : Campaign} {s s' : Store} (h : CampaignRead c s)
    (hs : Relation.ReflTransGen Store.Other s s') : CampaignRead c s' := by
  obtain ⟨hinv, s₀, hc, hahead⟩ := h
  exact ⟨hinv.ahead (.of_others hs), s₀, hc, hahead.trans (.of_others hs)⟩

theorem CampaignRead.held {c : Campaign} (h : CampaignRead c s) :
    Held { campaign := c, targets := s.targets } s := by
  obtain ⟨hinv, s₀, rfl, hahead⟩ := h
  refine ⟨hinv, ?_, hinv.outside, ?_⟩
  · exact { hahead with rows := (Ahead.refl s).rows }
  · intro hm hrev
    obtain ⟨hstate, hgate⟩ := hahead.same hrev
    obtain ⟨hcanary, hadvanced, hdue⟩ := (hinv.gate (hstate.trans hm)).1
    refine ⟨hcanary, hgate.symm.trans hadvanced, ?_⟩
    rw [← hahead.order]
    exact hdue

theorem safe_readTargets {c : Campaign} (h : CampaignRead c s) :
    SafePass Pass.readTargets (fun targets s' => Held { campaign := c, targets := targets } s') s :=
  safe_issue fun _ hs' => ⟨trivial, (h.others hs').held⟩

theorem safe_expire {c : Campaign} (h : CampaignRead c s)
    (hc : c.state = .awaitingApproval ∨ c.state = .planned) :
    SafePass (Pass.expire c) (fun _ _ => True) s := by
  refine safe_bind (safe_readTargets h) ?_
  intro targets s₁ h₁
  refine safe_bind (kept_forTargets
    (C := fun c => c.state = .awaitingApproval ∨ c.state = .planned)
    (fun m s i h hc => kept_closeOpen h (by rcases hc with hc | hc <;> rw [hc] <;> decide)) h₁ hc) ?_
  rintro ⟨m', _⟩ s₂ ⟨h₂, hfollows⟩
  apply safe_endWith h₂
  · intro _ _ _
    rw [hfollows.campaign]
    rcases hc with hc | hc <;> rw [hc] <;> rfl
  · exact fun h => State.noConfusion h

theorem safe_drive {c : Campaign} (h : CampaignRead c s) (hdriven : c.state.terminal = false)
    (happroved : c.state ≠ .awaitingApproval) :
    SafePass (Pass.drive facts c) (fun _ _ => True) s := by
  refine safe_bind (safe_readTargets h) ?_
  intro targets s₁ h₁
  split
  next hc => exact safe_plan h₁ hc
  next hc => exact safe_drain h₁ hc
  · exact safe_settle h₁
  · exact safe_settle h₁
  next h₁' h₂' h₃' h₄' =>
    apply safe_rollOut h₁
    unfold Rollable
    revert hdriven happroved h₁' h₂' h₃' h₄'
    cases c.state <;> decide

/-- **Every statement of a pass meets its condition.** -/
theorem safe_advance (facts : Facts) (hs : Invariant s) :
    SafePass (Pass.advance facts) (fun _ _ => True) s := by
  refine safe_bind (safe_issue (Q := fun answer s' =>
    ∀ c, answer = some c → c.state.terminal = false ∧ CampaignRead c s') ?_) ?_
  · intro s' hs'
    refine ⟨trivial, fun c hc => ?_⟩
    have hinv := hs.ahead (.of_others hs')
    obtain ⟨hdriven, hc⟩ := of_then hc nofun
    cases hc
    refine ⟨?_, hinv, s', rfl, .refl s'⟩
    unfold Store.driven at hdriven
    simp only [Bool.and_eq_true, Bool.not_eq_true'] at hdriven
    exact hdriven.1
  · rintro (_ | c) s₁ hread
    · exact safe_pure trivial
    · obtain ⟨hdriven, hread⟩ := hread c rfl
      dsimp only
      split
      next hwaits =>
        split
        · exact safe_pure trivial
        · split
          · exact safe_expire hread (hwaits.imp id And.left)
          · split
            · exact safe_pure trivial
            next happroved => exact safe_drive hread hdriven happroved
      next hwaits => exact safe_drive hread hdriven fun h => hwaits (.inl h)

end

end Flotestro.Campaigns
