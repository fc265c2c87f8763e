import Flotestro.Campaigns.Interface.Rollout
import Mathlib.Data.List.Nodup

/-!
# The placement of the hosts

`placeTargets` goes over the hosts with two counters.  Each kind of host is numbered by its own
counter, so the pairs of wave and position come from two numberings: the ready hosts' is strictly
increasing, and the settled hosts' stands in the wave that is none.
-/

set_option autoImplicit false

namespace Flotestro.Campaigns

open List

/-- A host as the caller orders it; `none` is the empty state.
SOURCE: store.go:64-73 -/
structure TargetHost where
  id : String
  state : Option TargetState

/-- The state of its row.  SOURCE: store.go:351-354 -/
def TargetHost.first (host : TargetHost) : TargetState := host.state.getD .pending

/-- The host will run.  SOURCE: store.go:355 -/
def TargetHost.ready (host : TargetHost) : Bool := host.first = .pending

/-- SOURCE: store.go:337-342 -/
structure TargetPlacement where
  host : TargetHost
  state : TargetState
  wave : Int
  position : Nat

/-- The position `AssignWave` answers beside the wave.
SOURCE: store.go:321-327 -/
def assignPosition (index canarySize waveSize : Nat) : Nat :=
  if index < canarySize then index else (index - canarySize) % waveSize

variable (canarySize waveSize : Nat)

/-- The place of the ready host of an index. -/
def assign (index : Nat) : Int × Nat :=
  (assignWave index canarySize waveSize, assignPosition index canarySize waveSize)

/-- The loop from its two counters on.
SOURCE: store.go:350-366 -/
def placeFrom : Nat → Nat → List TargetHost → List TargetPlacement
  | _, _, [] => []
  | ready, aside, host :: hosts =>
    if host.ready then
      ⟨host, host.first, assignWave ready canarySize waveSize,
          assignPosition ready canarySize waveSize⟩ :: placeFrom (ready + 1) aside hosts
    else ⟨host, host.first, waveNone, aside⟩ :: placeFrom ready (aside + 1) hosts

/-- SOURCE: store.go:347-368 -/
def placeTargets (hosts : List TargetHost) (canarySize waveSize : Nat) : List TargetPlacement :=
  placeFrom canarySize waveSize 0 0 hosts

def TargetPlacement.place (p : TargetPlacement) : Int × Nat := (p.wave, p.position)

/-- The order of the target list. -/
def Earlier (a b : Int × Nat) : Prop := a.1 < b.1 ∨ a.1 = b.1 ∧ a.2 < b.2

variable {canarySize waveSize}

theorem assignWave_eq_zero_iff {index : Nat} :
    assignWave index canarySize waveSize = 0 ↔ index < canarySize := by
  unfold assignWave
  generalize (index - canarySize) / waveSize = q
  split <;> omega

theorem assignWave_ne_waveNone (index : Nat) : assignWave index canarySize waveSize ≠ waveNone := by
  unfold assignWave waveNone
  generalize (index - canarySize) / waveSize = q
  split <;> omega

/-- Wave `k + 1` takes the `waveSize` indices behind the waves before it. -/
theorem assignWave_eq_succ_iff (h : 0 < waveSize) {index k : Nat} :
    assignWave index canarySize waveSize = k + 1 ↔
      canarySize + k * waveSize ≤ index ∧ index < canarySize + k * waveSize + waveSize := by
  have hdiv := Nat.div_eq_iff (x := index - canarySize) (y := k) h
  unfold assignWave
  generalize (index - canarySize) / waveSize = q at *
  split <;> omega

theorem earlier_assign {i j : Nat} (hij : i < j) :
    Earlier (assign canarySize waveSize i) (assign canarySize waveSize j) := by
  have hle : (i - canarySize) / waveSize ≤ (j - canarySize) / waveSize :=
    Nat.div_le_div_right (by omega)
  have hi := Nat.div_add_mod (i - canarySize) waveSize
  have hj := Nat.div_add_mod (j - canarySize) waveSize
  unfold Earlier assign assignWave assignPosition
  generalize (i - canarySize) / waveSize = q at *
  generalize (j - canarySize) / waveSize = r at *
  by_cases hic : i < canarySize
  · by_cases hjc : j < canarySize
    · simp [hic, hjc, hij]
    · omega
  · rw [if_neg hic, if_neg hic, if_neg (by omega), if_neg (by omega)]
    rcases Nat.lt_or_eq_of_le hle with hlt | rfl
    · exact .inl (by omega)
    · exact .inr ⟨rfl, by omega⟩

variable (hosts : List TargetHost) (ready aside : Nat)

theorem map_host_placeFrom :
    (placeFrom canarySize waveSize ready aside hosts).map (·.host) = hosts := by
  induction hosts generalizing ready aside with
  | nil => rfl
  | cons host hosts ih =>
    rw [placeFrom]
    split <;> simp [ih]

theorem mem_placeFrom : ∀ p ∈ placeFrom canarySize waveSize ready aside hosts,
    p.wave = waveNone ↔ p.host.ready = false := by
  induction hosts generalizing ready aside with
  | nil => simp [placeFrom]
  | cons host hosts ih =>
    rw [placeFrom]
    split
    next hready =>
      exact forall_mem_cons.mpr ⟨by simp [assignWave_ne_waveNone, hready], ih _ _⟩
    next hsettled => exact forall_mem_cons.mpr ⟨by simp [hsettled], ih _ _⟩

theorem places_ready :
    ((placeFrom canarySize waveSize ready aside hosts).filter (·.host.ready)).map (·.place) =
      (range' ready (hosts.countP (·.ready))).map (assign canarySize waveSize) := by
  induction hosts generalizing ready aside with
  | nil => rfl
  | cons host hosts ih =>
    rw [placeFrom]
    split <;> simp_all [range'_succ, TargetPlacement.place, assign]

theorem places_aside :
    ((placeFrom canarySize waveSize ready aside hosts).filter (!·.host.ready)).map (·.place) =
      (range' aside (hosts.countP (!·.ready))).map (Prod.mk waveNone) := by
  induction hosts generalizing ready aside with
  | nil => rfl
  | cons host hosts ih =>
    rw [placeFrom]
    split <;> simp_all [range'_succ, TargetPlacement.place]

theorem canary_placeFrom :
    ((placeFrom canarySize waveSize ready aside hosts).filter (·.wave = 0)).map (·.host) =
      (hosts.filter (·.ready)).take (canarySize - ready) := by
  induction hosts generalizing ready aside with
  | nil => simp [placeFrom]
  | cons host hosts ih =>
    rw [placeFrom]
    split
    next hready =>
      cases hleft : canarySize - ready with
      | zero =>
        have hwave : assignWave ready canarySize waveSize ≠ 0 := by
          rw [ne_eq, assignWave_eq_zero_iff]
          omega
        simp [hwave, ih, show canarySize - (ready + 1) = 0 by omega]
      | succ n =>
        have hwave : assignWave ready canarySize waveSize = 0 := by
          rw [assignWave_eq_zero_iff]
          omega
        simp [hwave, hready, ih, show canarySize - (ready + 1) = n by omega]
    next hsettled => simp [waveNone, hsettled, ih]

/-- The hosts of a wave behind the canary are the ready hosts between two indices. -/
theorem countP_wave (h : 0 < waveSize) (k : Nat) :
    (placeFrom canarySize waveSize ready aside hosts).countP (·.wave = (k : Int) + 1) =
      min (ready + hosts.countP (·.ready)) (canarySize + k * waveSize + waveSize) -
        max ready (canarySize + k * waveSize) := by
  induction hosts generalizing ready aside with
  | nil =>
    simp only [placeFrom, countP_nil]
    omega
  | cons host hosts ih =>
    rw [placeFrom]
    split
    next hready =>
      simp only [countP_cons, ih, assignWave_eq_succ_iff h, decide_eq_true_eq]
      split <;> omega
    next hsettled =>
      have hne : ¬waveNone = (k : Int) + 1 := by
        simp only [waveNone]
        omega
      simp [ih, hsettled, hne]

/-- **The placement of the hosts.** -/
structure Placement (hosts : List TargetHost) (canarySize waveSize : Nat)
    (places : List TargetPlacement) : Prop where
  all : places.map (·.host) = hosts
  distinct : (places.map (·.place)).Nodup
  canary : (places.filter (·.wave = 0)).map (·.host) = (hosts.filter (·.ready)).take canarySize
  /-- A wave behind the canary is full when a later one has a host. -/
  full : ∀ k j : Nat, k < j → (∃ p ∈ places, p.wave = (j : Int) + 1) →
    places.countP (·.wave = (k : Int) + 1) = waveSize
  /-- Read by wave and position the ready hosts come as they were given. -/
  order : (places.filter (·.host.ready)).Pairwise fun p q => Earlier p.place q.place
  settled : ∀ p ∈ places, p.wave = waveNone ↔ p.host.ready = false

theorem placement_placeTargets (h : 0 < waveSize) :
    Placement hosts canarySize waveSize (placeTargets hosts canarySize waveSize) := by
  have horder : ((range' 0 (hosts.countP (·.ready))).map (assign canarySize waveSize)).Pairwise
      Earlier :=
    pairwise_map.mpr ((pairwise_lt_range' 1).imp earlier_assign)
  refine ⟨map_host_placeFrom hosts 0 0, ?_, canary_placeFrom hosts 0 0, ?_, ?_,
    mem_placeFrom hosts 0 0⟩
  · have hperm := (filter_append_perm (·.host.ready) (placeTargets hosts canarySize waveSize)).map
      (·.place)
    rw [← hperm.nodup_iff, map_append, placeTargets, places_ready, places_aside]
    refine Nodup.append (horder.imp ?_) ((nodup_range' 1).map fun _ _ h => (Prod.mk.inj h).2) ?_
    · rintro ⟨_, _⟩ _ hab rfl
      simp [Earlier] at hab
    · intro place hready haside
      obtain ⟨i, -, rfl⟩ := mem_map.mp hready
      obtain ⟨_, -, heq⟩ := mem_map.mp haside
      exact assignWave_ne_waveNone i (congrArg Prod.fst heq).symm
  · rintro k j hkj ⟨p, hp, hwave⟩
    have hpos : 0 < (placeTargets hosts canarySize waveSize).countP (·.wave = (j : Int) + 1) :=
      countP_pos_iff.mpr ⟨p, hp, decide_eq_true hwave⟩
    rw [placeTargets, countP_wave hosts 0 0 h] at hpos ⊢
    have hmul : k * waveSize + waveSize ≤ j * waveSize := by
      rw [← Nat.succ_mul]
      exact Nat.mul_le_mul_right _ hkj
    omega
  · rw [placeTargets, ← pairwise_map (f := TargetPlacement.place), places_ready]
    exact horder

theorem placement_settled_first :
    let hosts : List TargetHost := [⟨"a", some .ineligible⟩, ⟨"b", none⟩, ⟨"c", none⟩, ⟨"d", none⟩]
    Placement hosts 1 1 (placeTargets hosts 1 1) ∧
      (placeTargets hosts 1 1).map (·.place) = [(-1, 0), (0, 0), (1, 0), (2, 0)] :=
  ⟨placement_placeTargets _ (by decide), by decide⟩

end Flotestro.Campaigns
