import Mathlib.Algebra.Order.BigOperators.Group.List
import Flotestro.Budgets.Model.Budgets

/-!
# Budgets are not oversold by renewals that are in time

A grant counts the leases that were alive when its transaction began, which are at least those alive
when it commits.  A renewal is not counted by anybody: it keeps the sum within the capacity only while
the lease it extends is still alive, and it judges that by the moment it began
(`renewed_lease_oversells`).
-/

set_option autoImplicit false

namespace Flotestro.Budgets

open Library List

/-! ## Sums over leases -/

section

variable {p q : Lease → Bool} {l l' : List Lease}

theorem weightIf_append : weightIf p (l ++ l') = weightIf p l + weightIf p l' := by
  simp [weightIf]

theorem weightIf_filter : weightIf p (l.filter q) = weightIf (fun r => p r && q r) l := by
  induction l with
  | nil => rfl
  | cons r l ih =>
    simp only [weightIf, map_cons] at ih ⊢
    by_cases hq : q r = true
    · rw [filter_cons_of_pos hq, map_cons, sum_cons, ih]
      simp [hq]
    · rw [filter_cons_of_neg hq, ih]
      simp [hq]

theorem weightIf_le (hpos : ∀ r ∈ l, 0 ≤ r.weight) (hpq : ∀ r ∈ l, p r = true → q r = true) :
    weightIf p l ≤ weightIf q l := by
  apply sum_le_sum
  intro r hr
  by_cases hp : p r = true
  · rw [if_pos hp, if_pos (hpq r hr hp)]
  · rw [if_neg hp]
    split
    · exact hpos r hr
    · exact Int.le_refl _

theorem weightIf_map {f : Lease → Lease} (hweight : ∀ r, (f r).weight = r.weight) :
    weightIf p (l.map f) = weightIf (fun r => p (f r)) l := by
  unfold weightIf
  rw [map_map]
  apply congrArg List.sum
  apply map_congr_left
  intro r _
  simp [hweight]

end

/-- The weight of the leases on a key that are alive at a moment. -/
def held (key : Bytes) (now : Int) (leases : List Lease) : Int :=
  weightIf (fun l => l.key = key && l.alive now) leases

/-- No lease weighs less than nothing. -/
def Weighed (leases : List Lease) : Prop := ∀ l ∈ leases, 0 ≤ l.weight

section

variable {leases : List Lease} {key owner : Bytes} {now later : Int}

theorem held_le_of_later (hpos : Weighed leases) (h : now ≤ later) :
    held key later leases ≤ held key now leases := by
  apply weightIf_le hpos
  intro r _ hr
  simp only [Lease.alive, Bool.and_eq_true, decide_eq_true_eq] at hr ⊢
  exact ⟨hr.1, by omega⟩

theorem held_filter_le (hpos : Weighed leases) (q : Lease → Bool) :
    held key now (leases.filter q) ≤ held key now leases := by
  unfold held
  rw [weightIf_filter]
  apply weightIf_le hpos
  intro r _ hr
  exact (Bool.and_eq_true _ _ ▸ hr).1

theorem Weighed.filter (hpos : Weighed leases) (q : Lease → Bool) : Weighed (leases.filter q) :=
  fun r hr => hpos r (mem_of_mem_filter hr)

theorem used_le_of_later (hpos : Weighed leases) (h : now ≤ later) :
    used later key owner leases ≤ used now key owner leases := by
  apply weightIf_le hpos
  intro r _ hr
  simp only [Lease.alive, Bool.and_eq_true, decide_eq_true_eq] at hr ⊢
  exact ⟨⟨hr.1.1, by omega⟩, hr.2⟩

end

def capacityOf (limits : Bytes → Option Int) (key : Bytes) : Option Int :=
  match limits key with
  | some capacity => some capacity
  | none => if pattern key = [] then none else limits (pattern key)

section

variable {limits : Bytes → Option Int} {now later : Int} {owner claimant : Bytes} {cls : Class}
variable {needs l granted : List Need} {db : Tables} {key : Bytes} {capacity token : Int}

variable {need : Need} {leases : List Lease}

theorem mem_wanted (h : need ∈ needs) :
    need.key ∈ wanted needs ∧ (pattern need.key ≠ [] → pattern need.key ∈ wanted needs) := by
  constructor
  · refine mem_flatMap.mpr ⟨need, h, ?_⟩
    split <;> simp
  · intro hne
    refine mem_flatMap.mpr ⟨need, h, ?_⟩
    rw [if_neg hne]
    simp

theorem capacities_eq (hneed : need ∈ needs) (hcap : capacityOf limits need.key = some capacity) :
    capacities limits needs need.key = some capacity := by
  obtain ⟨hkey, hpattern⟩ := mem_wanted hneed
  unfold capacityOf at hcap
  unfold capacities
  simp only [if_pos hkey]
  cases hlimit : limits need.key with
  | some c =>
    simp only [hlimit] at hcap
    exact hcap
  | none =>
    simp only [hlimit] at hcap
    obtain ⟨hne, hcap⟩ := Option.ite_none_left_eq_some.mp hcap
    simp only [if_pos (hpattern hne)]
    exact hcap

/-- A granted need was found to fit beside the leases of the others. -/
theorem judge_spec (hl : ∀ need ∈ l, need ∈ needs)
    (h : judge limits now owner claimant cls needs db l = .ok granted) :
    ∀ need ∈ granted, ∀ capacity, capacityOf limits need.key = some capacity →
      used now need.key owner db.leases + need.weight ≤ capacity := by
  induction l generalizing granted with
  | nil =>
    obtain rfl := Except.ok.inj h
    simp
  | cons need rest ih =>
    have hrest := fun n hn => hl n (mem_cons_of_mem _ hn)
    simp only [judge] at h
    split at h
    · exact ih hrest h
    next c hc =>
      obtain ⟨hfits, h⟩ := of_else h nofun
      cases hjudge : judge limits now owner claimant cls needs db rest with
      | error e =>
        rw [hjudge] at h
        exact absurd h (by simp [Except.map])
      | ok granted' =>
        rw [hjudge] at h
        obtain rfl := Except.ok.inj h
        intro n hn capacity hcap
        rcases mem_cons.mp hn with rfl | hn
        · rw [capacities_eq (hl n (mem_cons_self)) hcap] at hc
          cases hc
          simp only [refuses, Bool.or_eq_true, decide_eq_true_eq] at hfits
          omega
        · exact ih hrest hjudge n hn capacity hcap

theorem weightIf_recordLease (p : Lease → Bool) :
    weightIf p (recordLease later owner claimant token leases need) =
      weightIf (fun r => p r && !(r.key = need.key && r.owner = owner)) leases +
        if p ⟨need.key, owner, claimant, need.weight, later + defaultLease, token⟩ then need.weight
        else 0 := by
  rw [recordLease, weightIf_append, weightIf_filter]
  simp [weightIf]

theorem used_recordLease : used now key owner (recordLease later owner claimant token leases need) =
      used now key owner leases := by
  unfold used
  rw [weightIf_recordLease, if_neg (by simp), Int.add_zero]
  congr 1
  funext r
  by_cases howner : r.owner = owner <;> simp [howner]

theorem held_recordLease_le (hweight : 0 ≤ need.weight) :
    held need.key now (recordLease later owner claimant token leases need) ≤
      used now need.key owner leases + need.weight := by
  unfold held
  rw [weightIf_recordLease]
  have hothers : weightIf (fun r => r.key = need.key && r.alive now &&
      !(r.key = need.key && r.owner = owner)) leases = used now need.key owner leases := by
    congr 1
    funext r
    by_cases hkey : r.key = need.key <;> simp [hkey]
  split <;> omega

theorem held_recordLease_of_ne (hne : need.key ≠ key) :
    held key now (recordLease later owner claimant token leases need) = held key now leases := by
  unfold held
  rw [weightIf_recordLease, if_neg (by simp [hne]), Int.add_zero]
  congr 1
  funext r
  by_cases hkey : r.key = key
  · have : ¬ key = need.key := fun h => hne h.symm
    simp [hkey, this]
  · simp [hkey]

theorem Weighed.recordLease (hpos : Weighed leases) (hweight : 0 ≤ need.weight) :
    Weighed (Budgets.recordLease now owner claimant token leases need) :=
  forall_mem_concat (hpos.filter _) hweight

theorem recorded_spec (hpos : Weighed leases) (hheld : held key later leases ≤ capacity)
    (hweight : ∀ need ∈ granted, 0 ≤ need.weight) (hfits : ∀ need ∈ granted, need.key = key →
      used later key owner leases + need.weight ≤ capacity) :
    Weighed (granted.foldl (recordLease now owner claimant token) leases) ∧
      held key later (granted.foldl (recordLease now owner claimant token) leases) ≤ capacity := by
  induction granted generalizing leases with
  | nil => exact ⟨hpos, hheld⟩
  | cons need rest ih =>
    have hneed := hweight need mem_cons_self
    apply ih (hpos.recordLease hneed)
    · by_cases hkey : need.key = key
      · have hle : held need.key later (recordLease now owner claimant token leases need) ≤
            used later need.key owner leases + need.weight := held_recordLease_le hneed
        rw [hkey] at hle
        exact Int.le_trans hle (hfits need mem_cons_self hkey)
      · rw [held_recordLease_of_ne hkey]
        exact hheld
    · exact fun n hn => hweight n (mem_cons_of_mem _ hn)
    · intro n hn hkey
      rw [used_recordLease]
      exact hfits n (mem_cons_of_mem _ hn) hkey

end

/-- The leases weigh something, and those on the key that are alive fit its capacity. -/
structure Within (key : Bytes) (capacity now : Int) (leases : List Lease) : Prop where
  weighed : Weighed leases
  held : held key now leases ≤ capacity

/-- A renewal that takes effect at a moment finds the leases it extends still alive. -/
def InTime (request : Request) (began now : Int) (leases : List Lease) : Prop :=
  ∀ l ∈ leases, request.names l = true → l.alive began = true → l.alive now = true

instance decidableInTime (request : Request) (began now : Int) (leases : List Lease) :
    Decidable (InTime request began now leases) :=
  inferInstanceAs (Decidable (∀ l ∈ leases, _))

section

variable {limits : Bytes → Option Int} {key : Bytes} {capacity began now : Int} {db db' : Tables}
variable {request : Request}

theorem within_acquire {owner claimant : Bytes} {cls : Class} {needs : List Need} {token : Int}
    (hcap : capacityOf limits key = some capacity) (hbegan : began ≤ now)
    (hdb : Within key capacity now db.leases)
    (h : acquireFenced limits began owner claimant cls needs token db = some db') :
    Within key capacity now db'.leases := by
  unfold acquireFenced at h
  simp only at h
  split at h
  next k _ =>
    cases h
    unfold recordWaiter
    split <;> exact hdb
  next granted hjudge =>
    obtain ⟨hall, rfl⟩ := of_guard h
    have hweight : ∀ need ∈ granted, 0 ≤ need.weight := by
      intro need hneed
      have hpos := all_eq_true.mp hall need hneed
      simp only [decide_eq_true_eq] at hpos
      omega
    have hmem : ∀ need ∈ needs.insertionSort fun a b => keyLe a.key b.key, need ∈ needs :=
      fun need hneed => (perm_insertionSort _ needs).mem_iff.mp hneed
    have hfits : ∀ need ∈ granted, need.key = key →
        used now key owner db.leases + need.weight ≤ capacity := by
      rintro need hneed rfl
      -- what was alive at the beginning is at least what is alive now
      have hused : used now need.key owner db.leases ≤ used began need.key owner db.leases :=
        used_le_of_later hdb.weighed hbegan
      have := judge_spec hmem hjudge need hneed capacity hcap
      omega
    obtain ⟨hpos, hheld⟩ := recorded_spec hdb.weighed hdb.held hweight hfits
    exact ⟨hpos, hheld⟩

theorem within_renewIf {leases : List Lease} {p : Lease → Bool}
    (hlate : ∀ l ∈ leases, p l = true → l.alive began = true → l.alive now = true)
    (h : Within key capacity now leases) : Within key capacity now (renewIf p began leases) := by
  constructor
  · intro r hr
    obtain ⟨l, hl, rfl⟩ := mem_map.mp hr
    have := h.weighed l hl
    split <;> exact this
  · refine Int.le_trans ?_ h.held
    unfold Budgets.held renewIf
    rw [weightIf_map fun r => by split <;> rfl]
    apply weightIf_le h.weighed
    intro r hr halive
    split at halive
    next hnamed =>
      obtain ⟨hp, hbegan⟩ := Bool.and_eq_true_iff.mp hnamed
      rw [Bool.and_eq_true]
      exact ⟨(Bool.and_eq_true_iff.mp halive).1, hlate r hr hp hbegan⟩
    · exact halive

theorem Within.filter {leases : List Lease} (h : Within key capacity now leases)
    (q : Lease → Bool) : Within key capacity now (leases.filter q) :=
  ⟨h.weighed.filter q, Int.le_trans (held_filter_le h.weighed q) h.held⟩

theorem within_effect (hcap : capacityOf limits key = some capacity) (hbegan : began ≤ now)
    (htime : InTime request began now db.leases) (hdb : Within key capacity now db.leases)
    (h : request.effect limits began db = some db') : Within key capacity now db'.leases := by
  cases request with
  | acquire owner claimant cls needs token => exact within_acquire hcap hbegan hdb h
  | renew owners | renewFenced held =>
    cases h
    exact within_renewIf htime hdb
  | release owner | releaseFenced owner token | releaseClaimant claimant | sweep =>
    cases h
    exact hdb.filter _

end

namespace Database

/-- The transaction is no renewal of a lease that has run out meanwhile. -/
def CommitsInTime (s : Database) : Option (Request × Int) → Prop
  | none => True
  | some (request, began) => InTime request began s.now s.tables.leases

instance decidableCommitsInTime (s : Database) :
    (tx : Option (Request × Int)) → Decidable (s.CommitsInTime tx)
  | none => .isTrue trivial
  | some (request, began) => decidableInTime request began s.now s.tables.leases

/-- The event is no renewal that commits after a lease it extends has run out. -/
def Punctual : Event → Database → Prop
  | .commit n, s => s.CommitsInTime (s.txs n)
  | _, _ => True

instance decidablePunctual (e : Event) (s : Database) : Decidable (Punctual e s) := by
  cases e <;> unfold Punctual <;> infer_instance

/-- The key is within its capacity, and no transaction began later than now. -/
structure Invariant (key : Bytes) (capacity : Int) (s : Database) : Prop where
  within : Within key capacity s.now s.tables.leases
  began : ∀ n request began, s.txs n = some (request, began) → began ≤ s.now

variable {limits : Bytes → Option Int} {key : Bytes} {capacity : Int}

theorem Invariant.setTx {s : Database} (hs : s.Invariant key capacity) (n : Nat)
    {tx : Option (Request × Int)} (htx : ∀ request began, tx = some (request, began) → began ≤ s.now) :
    (s.setTx n tx).Invariant key capacity := by
  refine ⟨hs.within, fun m request began hm => ?_⟩
  simp only [Database.setTx] at hm
  split at hm
  · exact htx request began hm
  · exact hs.began m request began hm

theorem invariant_step (hcap : capacityOf limits key = some capacity) (e : Event)
    (s s' : Database) (h : step limits e s = some s') (hpunctual : Punctual e s)
    (hs : s.Invariant key capacity) : s'.Invariant key capacity := by
  cases e with
  | tick d =>
    cases h
    have hlater : s.now ≤ s.now + d := by omega
    constructor
    · exact ⟨hs.within.weighed,
        Int.le_trans (held_le_of_later hs.within.weighed hlater) hs.within.held⟩
    · intro n request began hn
      exact Int.le_trans (hs.began n request began hn) hlater
  | begin n request =>
    simp only [step] at h
    split at h
    · cases h
      apply hs.setTx
      intro r began heq
      obtain ⟨_, rfl⟩ := Prod.mk.inj (Option.some.inj heq)
      exact Int.le_refl _
    · cases h
  | commit n =>
    simp only [step] at h
    split at h
    · cases h
    next request began htx =>
      cases h
      simp only [Punctual, htx] at hpunctual
      unfold Database.commit
      split
      · exact hs.setTx n (by simp)
      next tables heffect =>
        have hwithin := within_effect hcap (hs.began n request began htx)
          hpunctual hs.within heffect
        have hs' : Invariant key capacity { s with tables := tables } := ⟨hwithin, hs.began⟩
        exact hs'.setTx n (by simp)
  | abort n =>
    cases h
    exact hs.setTx n (by simp)

/-- **Budgets are not oversold by renewals in time.**  From a state with no transaction
open, a run none of whose renewals commits after a lease it extends has run out keeps the leases of a
key that are alive within its capacity, in every state it reaches. -/
theorem budget_within_capacity {s x : Database} {es : List Event}
    (hcap : capacityOf limits key = some capacity) (hquiet : ∀ n, s.txs n = none)
    (hweighed : Weighed s.tables.leases) (hheld : held key s.now s.tables.leases ≤ capacity)
    (hpunctual : meets (step limits) Punctual es s)
    (h : run (step limits) es s = some x) : held key x.now x.tables.leases ≤ capacity := by
  have hs : s.Invariant key capacity := by
    refine ⟨⟨hweighed, hheld⟩, fun n request began hn => ?_⟩
    rw [hquiet n] at hn
    cases hn
  exact (run_inv_of_meets (invariant_step hcap _ _ _) hpunctual h hs).within.held

/-! ### A renewal that comes late -/

def oneToken : Bytes → Option Int := fun key => if key = [107] then some 1 else none

def nothingHeld : Database := ⟨0, ⟨[], []⟩, fun _ => none⟩

def wants (owner : UInt8) : Request := .acquire [owner] [owner] .incident [⟨[107], 1⟩] 0

/-- The first owner takes the token and renews it in time. -/
def renewedInTime : List Event :=
  [.begin 0 (wants 1), .commit 0, .tick 119000000, .begin 1 (.renew [[1]]), .commit 1,
    .tick 2000000]

/-- The renewal began before the term ran out and commits after the second owner has taken
the token. -/
def renewedLate : List Event :=
  [.begin 0 (wants 1), .commit 0, .tick 119000000, .begin 1 (.renew [[1]]), .tick 2000000,
    .begin 2 (wants 2), .commit 2, .commit 1]

theorem budget_within_capacity_renewed :
    ∃ x, run (step oneToken) renewedInTime nothingHeld = some x ∧
      held [107] x.now x.tables.leases ≤ 1 :=
  have hpunctual : meets (step oneToken) Punctual renewedInTime nothingHeld := by decide
  have hweighed : Weighed nothingHeld.tables.leases := by simp [Weighed, nothingHeld]
  ⟨_, rfl, budget_within_capacity rfl (fun _ => rfl) hweighed (by decide) hpunctual rfl⟩

/-- Two tokens of one are alive. -/
theorem renewed_lease_oversells : capacityOf oneToken [107] = some 1 ∧
      ∃ x, run (step oneToken) renewedLate nothingHeld = some x ∧
        held [107] x.now x.tables.leases = 2 :=
  ⟨rfl, _, rfl, by decide⟩

end Database

end Flotestro.Budgets
