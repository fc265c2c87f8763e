import Flotestro.Campaigns.Analysis.Settling

/-!
# Starting a wave

The wave to start is the lowest one with a host that holds it.  Above wave zero this says that the
canary is finished, and the gate is looked at before anything starts, so the waves may start; the
number of hosts at work is counted before and along the loop, so a host is only started below the
limit.
-/

set_option autoImplicit false

namespace Flotestro.Campaigns

open Library List
open Prog (safe_pure safe_bind safe_map)

section

theorem currentWave_fold {l : List Target} (hl : ∀ t ∈ l, t.holdsWave = true → 0 ≤ t.wave)
    (acc : Int) :
    let wave := l.foldl (fun wave t =>
      if !t.holdsWave then wave else if wave < 0 ∨ t.wave < wave then t.wave else wave) acc
    (0 ≤ acc → 0 ≤ wave ∧ wave ≤ acc) ∧
      (∀ t ∈ l, t.holdsWave = true → 0 ≤ wave ∧ wave ≤ t.wave) ∧
      (wave = acc ∨ ∃ t ∈ l, t.holdsWave = true ∧ t.wave = wave) := by
  induction l generalizing acc with
  | nil => exact ⟨fun h => ⟨h, Int.le_refl _⟩, fun t ht => absurd ht not_mem_nil, .inl rfl⟩
  | cons a l ih =>
    have hrest : ∀ t ∈ l, t.holdsWave = true → 0 ≤ t.wave :=
      fun t ht => hl t (mem_cons_of_mem a ht)
    rw [foldl_cons]
    by_cases ha : a.holdsWave = true
    · have hwave := hl a mem_cons_self ha
      set next : Int := if acc < 0 ∨ a.wave < acc then a.wave else acc with hnext
      have hle : 0 ≤ next ∧ next ≤ a.wave ∧ (0 ≤ acc → next ≤ acc) := by
        rw [hnext]
        split <;> omega
      simp only [ha, Bool.not_true, Bool.false_eq_true, if_false]
      obtain ⟨hacc, hmem, hex⟩ := ih hrest next
      have hpos := hacc hle.1
      refine ⟨fun h => by omega, forall_mem_cons.mpr ⟨fun _ => by omega, hmem⟩, ?_⟩
      rcases hex with heq | ⟨t, ht, hheld⟩
      · by_cases hlow : acc < 0 ∨ a.wave < acc
        · right
          refine ⟨a, mem_cons_self, ha, ?_⟩
          rw [heq, hnext, if_pos hlow]
        · left
          rw [heq, hnext, if_neg hlow]
      · exact .inr ⟨t, mem_cons_of_mem a ht, hheld⟩
    · have hnot : a.holdsWave = false := by simpa using ha
      simp only [hnot]
      obtain ⟨hacc, hmem, hex⟩ := ih hrest acc
      refine ⟨hacc, forall_mem_cons.mpr ⟨fun hholds => absurd hholds ha, hmem⟩, hex.imp_right ?_⟩
      rintro ⟨t, ht, hheld⟩
      exact ⟨t, mem_cons_of_mem a ht, hheld⟩

variable {l : List Target}

theorem not_finished_of_holdsWave {t : Target} (h : t.holdsWave = true) :
    t.state.finished = false ∧ (t.wave ≠ 0 → t.state ≠ .queuedOffline) := by
  obtain ⟨hopen, h⟩ := of_else h nofun
  refine ⟨by simpa using hopen, fun hwave hq => ?_⟩
  simp [hq, hwave] at h

variable (hl : ∀ t ∈ l, t.wave < 0 → t.state.finished = true)

include hl in
theorem holdsWave_nonneg : ∀ t ∈ l, t.holdsWave = true → 0 ≤ t.wave := by
  intro t ht hholds
  by_contra hneg
  have := hl t ht (by omega)
  rw [(not_finished_of_holdsWave hholds).1] at this
  exact Bool.false_ne_true this

include hl in
theorem canaryFinished_of_currentWave (h : 0 < currentWave l) : CanaryFinished l := by
  intro t ht
  obtain ⟨hmem, hwave⟩ := mem_filter.mp ht
  replace hwave : t.wave = 0 := by simpa using hwave
  by_contra hopen
  have hholds : t.holdsWave = true := by
    unfold Target.holdsWave
    simp [hopen, hwave]
  have := ((currentWave_fold (holdsWave_nonneg hl) (-1)).2.1 t hmem hholds).2
  unfold currentWave at h
  omega

include hl in
theorem exists_holds_currentWave (h : 0 ≤ currentWave l) :
    ∃ t ∈ l, t.holdsWave = true ∧ t.wave = currentWave l := by
  rcases (currentWave_fold (holdsWave_nonneg hl) (-1)).2.2 with heq | hex
  · unfold currentWave at h
    omega
  · exact hex

end

theorem underWay_le_active (l : List Target) : underWayTargets l ≤ activeTargets l := by
  apply countP_mono_left
  intro t _ hunder
  revert hunder
  cases t.state <;> decide

/-! ## The loop of a wave -/

section

variable {s : Store} {w : Pass.Wave} {i : Nat} {t : Target} {facts : Facts} {f : HostFacts}

/-- The copy in the loop of a wave: hosts may be started, and those at work are counted. -/
structure Rolling (c : Campaign) (waves : List Int) (wave : Int) (w : Pass.Wave) (s : Store) :
    Prop where
  held : Held w.copy s
  campaign : w.copy.campaign = c
  waves : w.copy.targets.map Target.wave = waves
  opened : 0 < wave → w.copy.Opened
  running : underWayTargets w.copy.targets ≤ w.running

variable {c : Campaign} {waves : List Int} {wave : Int}

/-- The loop of a wave goes on only with a copy in order. -/
def RollsOn (c : Campaign) (waves : List Int) (wave : Int) (r : Pass.Wave × Bool) (s : Store) :
    Prop :=
  r.2 = true → Rolling c waves wave r.1 s

theorem rolls_kept {p : Pass (Store × Bool)} (hw : Rolling c waves wave w s)
    (hp : SafePass p (Kept w.copy i s) s) :
    SafePass (w.after 0 <$> p) (RollsOn c waves wave) s := by
  apply safe_map
  refine hp.mono fun r s' hr _ => ?_
  exact
    { held := hr.held
      campaign := hr.follows.campaign.trans hw.campaign
      waves := hr.follows.waves.trans hw.waves
      opened := fun h => hr.follows.opened (hw.opened h)
      running := Nat.le_trans hr.follows.underWay hw.running }

/-- The state of a campaign in which a pass starts a wave. -/
def Waving (c : Campaign) : Prop := c.state = .canary ∨ c.state = .running

theorem Waving.ne_gate (hc : Waving c) : c.state ≠ .manualGate := by
  rcases hc with h | h <;> rw [h] <;> decide

theorem Waving.ne_planning (hc : Waving c) : c.state ≠ .planning := by
  rcases hc with h | h <;> rw [h] <;> decide

theorem rolls_pauseWave (hc : Waving c) (hw : Rolling c waves wave w s) :
    SafePass (w.after 0 <$> Pass.pauseWave w.copy) (RollsOn c waves wave) s := by
  apply safe_map
  have hpause := Store.pauseState_eq w.copy.targets
  refine safe_bind (safe_setState hw.held ?_ ?_) ?_
  · intro _ _ _
    rw [hw.campaign]
    rcases hc with h | h <;> rcases hpause with h' | h' <;> rw [h, h'] <;> rfl
  · intro hgate
    rcases hpause with h' | h' <;> rw [h'] at hgate <;> exact State.noConfusion hgate
  · rintro ⟨m', done⟩ s' _
    exact safe_pure nofun

variable (hc : Waving c) (hw : Rolling c waves wave w s) (ht : w.copy.targets[i]? = some t)
  (hwave : t.wave = wave)

include hc hw in
theorem Rolling.gate : w.copy.campaign.state = .manualGate → t.state ≠ .pending := by
  intro h
  rw [hw.campaign] at h
  exact absurd h hc.ne_gate

include hc hw ht hwave in
theorem rolls_startHost {next : TargetState} (hnext : next.underWay = true)
    (hlimit : w.running < w.copy.campaign.order.maxConcurrent) :
    SafePass (Pass.startHost w i t next) (RollsOn c waves wave) s := by
  have hmov : CopyMovable w.copy t next :=
    { work := fun _ => by
        right
        refine ⟨?_, fun hpos => hw.opened (by rw [← hwave]; exact hpos), ?_⟩
        · rw [hw.campaign]
          exact hc.ne_planning
        · exact Nat.lt_of_le_of_lt hw.running hlimit
      queue := fun haside => by
        rw [TargetState.aside_of_underWay hnext] at haside
        cases haside
      budget := fun _ => TargetState.ne_awaitingBudget (TargetState.aside_of_underWay hnext)
      gate := fun hg hp => absurd hp (hw.gate hc hg) }
  refine safe_bind (M := fun r s' => RollsOn c waves wave
    (w.after (if r.2 then 1 else 0) (r.1, r.2)) s') (safe_launch hw.held ht hmov ?_ ?_) ?_
  · intro s' _ _ h
    cases h
  · intro s' row _ hrow _ hopen hheld _
    exact
      { held := hheld
        campaign := hw.campaign
        waves := (waves_set ht hrow).trans hw.waves
        opened := fun h => (hw.opened h).withTarget ht hopen hrow
        running := by
          have := underWay_set_le_succ row ht
          have := hw.running
          change underWayTargets (w.copy.targets.set i row) ≤ w.running + 1
          omega }
  · rintro ⟨m', done⟩ s' h
    exact safe_pure h

include hc hw ht hwave in
theorem rolls_startRemediation (hlimit : w.running < w.copy.campaign.order.maxConcurrent) :
    SafePass (Pass.startRemediation f w i t) (RollsOn c waves wave) s := by
  unfold Pass.startRemediation
  split
  · exact safe_pure nofun
  · exact safe_pure nofun
  · exact rolls_kept hw (kept_close hw.held ht rfl (hw.gate hc))
  · exact rolls_pauseWave hc hw
  · exact rolls_kept hw (kept_close hw.held ht rfl (hw.gate hc))
  · exact rolls_kept hw (kept_refuse hw.held ht (hw.gate hc))
  · exact rolls_startHost hc hw ht hwave rfl hlimit

include hc hw ht hwave in
theorem kept_awaitBudget (code : ErrorCode) :
    SafePass (Pass.awaitBudget w.copy i t code) (Kept w.copy i s) s := by
  unfold Pass.awaitBudget
  split
  · apply kept_updateTarget hw.held ht
    · exact
        { work := nofun
          queue := fun _ hpos => .inr (.inl (hw.opened (by rw [← hwave]; exact hpos)))
          budget := fun hplan => by
            rw [hw.campaign] at hplan
            exact absurd hplan hc.ne_planning
          gate := fun hg hp => absurd hp (hw.gate hc hg) }
    · exact nofun
  · exact safe_pure (.refl hw.held i _)

include hc hw ht hwave in
theorem rolls_startClaimed (hlimit : w.running < w.copy.campaign.order.maxConcurrent) :
    SafePass (Pass.startClaimed f w i t) (RollsOn c waves wave) s := by
  unfold Pass.startClaimed
  split
  · exact safe_pure nofun
  · exact rolls_kept hw (kept_awaitBudget hc hw ht hwave _)
  split
  · exact rolls_startRemediation hc hw ht hwave hlimit
  · split
    · exact rolls_kept hw (kept_refuse hw.held ht (hw.gate hc))
    · exact rolls_startHost hc hw ht hwave rfl hlimit

include hc hw ht hwave in
theorem rolls_startWaiting (hlimit : w.running < w.copy.campaign.order.maxConcurrent) :
    SafePass (Pass.startWaiting facts w i t) (RollsOn c waves wave) s := by
  simp only [Pass.startWaiting]
  split
  · exact rolls_kept hw (kept_close hw.held ht rfl (hw.gate hc))
  · apply rolls_kept hw
    apply kept_holdOffline hw.held ht _ (hw.gate hc)
    exact fun hpos => .inr (.inl (hw.opened (by rw [← hwave]; exact hpos)))
  · split
    · exact rolls_pauseWave hc hw
    · exact rolls_kept hw (kept_close hw.held ht rfl (hw.gate hc))
    · split
      · exact rolls_kept hw (kept_close hw.held ht rfl (hw.gate hc))
      · exact rolls_startClaimed hc hw ht hwave hlimit

include hc hw in
theorem rolls_launchClaimed (hi : waves[i]? = some wave) :
    SafePass (Pass.launchClaimed facts w i) (RollsOn c waves wave) s := by
  unfold Pass.launchClaimed
  split
  · exact safe_pure fun _ => hw
  next t ht =>
    have hwave : t.wave = wave := by
      have := congrArg (fun l => l[i]?) hw.waves
      simp only [getElem?_map, ht, hi, Option.map_some, Option.some.injEq] at this
      exact this
    split
    · exact safe_pure fun _ => hw
    · split
      · exact safe_pure nofun
      next hlimit =>
        split
        · exact safe_pure nofun
        · exact rolls_startWaiting hc hw ht hwave (Nat.lt_of_not_le hlimit)

end

section

variable {m s : Store} {wave : Int} {free : Nat → Bool} {limit : Nat}

theorem lookup_claims (l : List Target) (taken : List Nat) (j : Nat) :
    (taken.filterMap fun i => (l[i]?).map fun t => (i, t.revision)).lookup j =
      if j ∈ taken then (l[j]?).map Target.revision else none := by
  induction taken with
  | nil => rfl
  | cons a taken ih =>
    by_cases hj : j = a
    · subst hj
      cases ha : l[j]? with
      | none => simp [ha, ih]
      | some t => simp [ha]
    · cases ha : l[a]? with
      | none => simp [ha, ih, hj]
      | some t => simp [ha, ih, hj, lookup_cons, beq_eq_false_iff_ne.mpr hj]

theorem wave_of_mem_claimable {i : Nat} {t : Target} (hi : i ∈ s.claimable wave free limit)
    (ht : s.targets[i]? = some t) : t.wave = wave := by
  have := (mem_filter.mp (mem_of_mem_take hi)).2
  simp only [ht, Bool.and_eq_true, decide_eq_true_eq] at this
  exact this.1.1

variable (claimed : List (Nat × Nat))

theorem adopted_wave (i : Nat) (t : Target) : (Pass.adopted claimed i t).wave = t.wave := by
  unfold Pass.adopted
  split
  · split <;> rfl
  · rfl

theorem adopted_state (i : Nat) (t : Target) : (Pass.adopted claimed i t).state = t.state := by
  unfold Pass.adopted
  split
  · split <;> rfl
  · rfl

theorem adopted_of_finished (i : Nat) {t : Target}
    (ht : t.state.finished = true) : Pass.adopted claimed i t = t := by
  unfold Pass.adopted
  split
  · rw [if_pos]
    left
    revert ht
    cases t.state <;> decide
  · rfl

theorem rowAhead_adopt {now : State} {t r : Target} {i : Nat} (hrow : RowAhead now t r)
    (hr : s.targets[i]? = some r) :
    RowAhead now (Pass.adopted (s.claimWave wave free limit).1 i t)
      (if i ∈ s.claimable wave free limit then { r with revision := r.revision + 1 } else r) := by
  have hlookup : ((s.claimWave wave free limit).1).lookup i =
      if i ∈ s.claimable wave free limit then some (r.revision + 1) else none := by
    simp only [Store.claimWave]
    rw [lookup_claims]
    split
    next hi => rw [getElem?_mapIdx, hr, Option.map_some, if_pos hi, Option.map_some]
    · rfl
  unfold Pass.adopted
  rw [hlookup]
  by_cases hi : i ∈ s.claimable wave free limit
  · rw [if_pos hi, if_pos hi]
    have hstate := Store.of_mem_claimable hi hr
    have hopen : r.state.finished = false := by
      rcases hstate with h | h <;> rw [h] <;> rfl
    have hsame := hrow.state_eq hopen
    have hwaits : ¬((!t.state.waiting) = true ∨ t.state = .queuedOffline) := by
      rw [← hsame]
      rcases hstate with h | h <;> rw [h] <;> decide
    have hcontent : ({ r with revision := r.revision + 1 } : Target) =
        { t with revision := r.revision + 1 } := by
      rcases hrow.content with h | h
      · rw [h]
      · rw [hopen] at h
        cases h
    simp only [if_neg hwaits]
    rw [hcontent]
    exact .refl now _
  · rw [if_neg hi, if_neg hi]
    exact hrow

theorem held_adopt (h : Held m s) (hplan : m.campaign.state ≠ .planning)
    (hgate : m.campaign.state ≠ .manualGate) :
    Held (Pass.adopt (s.claimWave wave free limit).1 m) (s.claimWave wave free limit).2 := by
  have hplan' : s.campaign.state ≠ .planning := fun hs => hplan (h.ahead.planning hs)
  have hclaimed := Store.ahead_claimWave hplan' wave free limit
  refine ⟨h.invariant.ahead hclaimed, ?_, ?_, fun hm => absurd hm hgate⟩
  · refine { h.ahead.trans hclaimed with rows := ?_ }
    rw [forall₂_iff_get]
    have hlen := h.ahead.rows.length_eq
    refine ⟨by simp [Pass.adopt, Store.claimWave, hlen], fun i hi hi' => ?_⟩
    have him : i < m.targets.length := by simpa [Pass.adopt] using hi
    have his : i < s.targets.length := by omega
    have hrow := (forall₂_iff_get.mp h.ahead.rows).2 i him his
    simp only [Pass.adopt, Store.claimWave, get_eq_getElem, getElem_mapIdx]
    exact rowAhead_adopt hrow (List.getElem?_eq_getElem his)
  · intro t ht hwave
    obtain ⟨i, hi⟩ := getElem?_of_mem ht
    simp only [Pass.adopt, getElem?_mapIdx, Option.map_eq_some_iff] at hi
    obtain ⟨u, hu, rfl⟩ := hi
    rw [adopted_wave] at hwave
    rw [adopted_state]
    exact h.outside u (mem_of_getElem? hu) hwave

theorem map_adopt {β : Type} {g : Target → β} (hg : ∀ i t, g (Pass.adopted claimed i t) = g t)
    (m : Store) : (Pass.adopt claimed m).targets.map g = m.targets.map g := by
  apply ext_getElem?
  intro i
  simp only [Pass.adopt, getElem?_map, getElem?_mapIdx, Option.map_map]
  exact congrArg (fun g => Option.map g m.targets[i]?) (funext (hg i))

theorem follows_adopt (m : Store) :
    Follows m (Pass.adopt claimed m) where
  campaign := rfl
  waves := map_adopt claimed (adopted_wave claimed) m
  opened h := by
    refine h.congr (canary_eq_of_rows (Store.forall₂_mapIdx _ fun i t _ => ?_) h.1) rfl id
    exact ⟨adopted_wave claimed i t, fun ht => adopted_of_finished claimed i ht⟩
  underWay := by
    have hcount : ∀ l : List Target,
        underWayTargets l = (l.map Target.state).countP TargetState.underWay := by
      intro l
      rw [countP_map]
      rfl
    apply Nat.le_of_eq
    rw [hcount, hcount, map_adopt claimed (adopted_state claimed)]

end

/-! ## A wave and its gate -/

section

variable {m s : Store} {facts : Facts} {wave : Int}

theorem safe_launchWave (h : Held m s) (hc : Waving m.campaign) (hopened : 0 < wave → m.Opened) :
    SafePass (Pass.launchWave facts m wave) (fun _ _ => True) s := by
  simp only [Pass.launchWave]
  split
  · exact safe_pure trivial
  · refine safe_bind (Prog.safe_issue (Q := fun claimed s' =>
      Rolling m.campaign (m.targets.map Target.wave) wave
          ⟨Pass.adopt claimed m, activeTargets m.targets⟩ s' ∧
        ∀ i ∈ claimed.map Prod.fst, (m.targets.map Target.wave)[i]? = some wave) ?_) ?_
    · intro s' hs'
      have h' := h.others hs'
      refine ⟨fun hplan => hc.ne_planning (h'.ahead.planning hplan), ?_, ?_⟩
      · have hfollows := follows_adopt
          (s'.claimWave wave (fun i => (facts.host i).claimFree)
            (m.campaign.order.maxConcurrent - activeTargets m.targets)).1 m
        exact
          { held := held_adopt h' hc.ne_planning hc.ne_gate
            campaign := rfl
            waves := hfollows.waves
            opened := fun hw => hfollows.opened (hopened hw)
            running := Nat.le_trans hfollows.underWay (underWay_le_active _) }
      · intro i hi
        obtain ⟨⟨j, revision⟩, hmem, rfl⟩ := mem_map.mp hi
        obtain ⟨k, hk, hmap⟩ := mem_filterMap.mp hmem
        obtain ⟨t, ht, heq⟩ := Option.map_eq_some_iff.mp hmap
        obtain ⟨rfl, -⟩ := Prod.mk.inj heq
        simp only [getElem?_mapIdx, Option.map_eq_some_iff] at ht
        obtain ⟨r, hr, -⟩ := ht
        obtain ⟨u, hu, hrow⟩ := h'.ahead.row hr
        rw [getElem?_map, hu, Option.map_some, ← hrow.wave, wave_of_mem_claimable hk hr]
    · rintro claimed s₁ ⟨hrolling, hclaimed⟩
      refine safe_bind (M := fun _ _ => True) ?_ fun _ _ _ => safe_pure trivial
      refine (Prog.safe_each (J := fun rest w s' =>
          Rolling m.campaign (m.targets.map Target.wave) wave w s' ∧
            ∀ i ∈ rest, (m.targets.map Target.wave)[i]? = some wave)
        (B := fun _ _ => True) ?_ _ ⟨hrolling, hclaimed⟩).mono fun _ _ _ => trivial
      rintro i rest w s₂ ⟨hw, hrest⟩
      refine (rolls_launchClaimed hc hw (hrest i mem_cons_self)).mono ?_
      rintro ⟨w', goesOn⟩ s₃ hr
      cases goesOn with
      | false => trivial
      | true => exact ⟨hr rfl, fun j hj => hrest j (mem_cons_of_mem i hj)⟩

/-- The states in which a pass rolls a campaign out. -/
def Rollable (c : Campaign) : Prop := State.pausable.contains c.state = true

/-- At the gate, as long as nobody moved the campaign, the pass reads a gate. -/
theorem Held.gate_or_wave (h : Held m s) (hm : m.campaign.state = .manualGate)
    (hrev : m.campaign.revision = s.campaign.revision) (hwave : 0 ≤ currentWave m.targets) :
    0 < currentWave m.targets ∧ m.GateStands := by
  have hstands := h.atGate hm hrev
  refine ⟨?_, hstands⟩
  obtain ⟨t, ht, hholds, heq⟩ := exists_holds_currentWave h.outside hwave
  have hne : t.wave ≠ 0 := by
    intro hzero
    have := hstands.1 t (mem_filter.mpr ⟨ht, by simpa using hzero⟩)
    rw [(not_finished_of_holdsWave hholds).1] at this
    exact Bool.false_ne_true this
  omega

theorem safe_enterGate (h : Held m s) (hc : Rollable m.campaign)
    (hwave : 0 < currentWave m.targets) (hadvanced : m.campaign.gateAdvanced = false)
    (hdue : m.campaign.order.manualGate = true ∨
      canaryExercisedNothing m.campaign.order.canarySize m.targets = true) :
    SafePass (Pass.enterGate m) (fun _ _ => True) s := by
  unfold Pass.enterGate
  split
  · exact safe_pure trivial
  next hne =>
    apply safe_endWith h
    · intro _ _ _
      revert hc hne
      unfold Rollable
      cases m.campaign.state <;> decide
    · intro _
      obtain ⟨t, ht, hholds, heq⟩ := exists_holds_currentWave h.outside (by omega)
      have hopen := not_finished_of_holdsWave hholds
      exact
        { stands := ⟨canaryFinished_of_currentWave h.outside hwave, hadvanced, hdue⟩
          holds := ⟨t, ht, by omega, hopen.1, hopen.2 (by omega)⟩
          before := hne }

theorem desiredState_eq (c : Campaign) (wave : Int) :
    Pass.desiredState c wave = .canary ∨ Pass.desiredState c wave = .running := by
  unfold Pass.desiredState
  split
  · exact .inl rfl
  · exact .inr rfl

/-- From every state but the gate the phase of a wave may be entered. -/
theorem mayBecome_desiredState {c : Campaign} {wave : Int} (hc : Rollable c)
    (hgate : c.state ≠ .manualGate) (hne : c.state ≠ Pass.desiredState c wave) :
    c.state.mayBecome (Pass.desiredState c wave) = true := by
  have hrunning : c.state = .running → Pass.desiredState c wave = .running := by
    intro h
    unfold Pass.desiredState
    rw [if_neg fun hand => hand.2 h]
  rcases desiredState_eq c wave with hd | hd
  · rw [hd] at hne hrunning ⊢
    revert hc hgate hne hrunning
    unfold Rollable
    cases c.state <;> decide
  · rw [hd] at hne ⊢
    revert hc hgate hne
    unfold Rollable
    cases c.state <;> decide

theorem safe_enterPhase (h : Held m s) (hc : Rollable m.campaign) (hopened : 0 < wave → m.Opened)
    (hgate : ∀ s', Held m s' → m.campaign.revision = s'.campaign.revision →
      m.campaign.state ≠ .manualGate) :
    SafePass (Pass.enterPhase facts m wave (Pass.desiredState m.campaign wave))
      (fun _ _ => True) s := by
  have hdesired := desiredState_eq m.campaign wave
  have hnotGate : Pass.desiredState m.campaign wave ≠ .manualGate := by
    rcases hdesired with hd | hd <;> rw [hd] <;> decide
  unfold Pass.enterPhase
  split
  next hne =>
    refine safe_bind (safe_setState h ?_ ?_) ?_
    · intro s' h' hrev
      exact mayBecome_desiredState hc (hgate s' h' hrev) hne
    · exact fun hn => absurd hn hnotGate
    · rintro ⟨m', done⟩ s₁ hmoved
      cases done with
      | false => exact safe_pure trivial
      | true =>
        have hm := hmoved rfl
        apply safe_launchWave (hm.held h.outside hnotGate)
        · rcases hdesired with hd | hd
          · exact .inl (hm.state.trans hd)
          · exact .inr (hm.state.trans hd)
        · exact fun hpos => hm.opened (hopened hpos)
  next heq =>
    apply safe_launchWave h _ hopened
    rw [not_not] at heq
    rcases hdesired with hd | hd
    · exact .inl (heq.trans hd)
    · exact .inr (heq.trans hd)

theorem safe_startWave (h : Held m s) (hc : Rollable m.campaign) :
    SafePass (Pass.startWave facts m) (fun _ _ => True) s := by
  simp only [Pass.startWave]
  split
  · exact safe_pure trivial
  next hwave =>
    split
    · exact safe_pure trivial
    · split
      next hgate =>
        obtain ⟨hpos, hmanual, hadvanced⟩ := hgate
        exact safe_enterGate h hc hpos (by simpa using hadvanced) (.inl hmanual)
      next hmanual =>
        split
        next hcanary =>
          obtain ⟨hpos, hadvanced, hnothing⟩ := hcanary
          exact safe_enterGate h hc hpos (by simpa using hadvanced) (.inr hnothing)
        next hcanary =>
          -- Neither gate stands before this wave.
          have hnone : 0 < currentWave m.targets → m.campaign.gateAdvanced = false →
              m.campaign.order.manualGate = false ∧
                canaryExercisedNothing m.campaign.order.canarySize m.targets = false := by
            intro hpos hadvanced
            constructor
            · by_contra h'
              exact hmanual ⟨hpos, by simpa using h', by rw [hadvanced]; rfl⟩
            · by_contra h'
              exact hcanary ⟨hpos, by rw [hadvanced]; rfl, by simpa using h'⟩
          apply safe_enterPhase h hc
          · intro hpos
            refine ⟨canaryFinished_of_currentWave h.outside hpos, ?_⟩
            cases hadvanced : m.campaign.gateAdvanced with
            | true => exact .inl rfl
            | false => exact .inr (hnone hpos hadvanced)
          · intro s' h' hrev hm
            obtain ⟨hpos, hstands⟩ := h'.gate_or_wave hm hrev (by omega)
            obtain ⟨hm', hn'⟩ := hnone hpos hstands.2.1
            rcases hstands.2.2 with hd | hd
            · rw [hm'] at hd
              exact Bool.false_ne_true hd
            · rw [hn'] at hd
              exact Bool.false_ne_true hd

end

end Flotestro.Campaigns
