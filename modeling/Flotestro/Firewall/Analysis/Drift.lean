import Flotestro.Firewall.Model.Drift

/-!
# Drift is a difference of multisets

Each pass consumes the counts of the other side, so of every key it reports as many rules as exceed
them.
-/

set_option autoImplicit false

namespace Flotestro.Firewall

open List

variable {κ : Type} [DecidableEq κ]

def keysOf (nftRuleKey : Rule → Option κ) (rules : List Rule) : Multiset (Option κ) :=
  rules.map nftRuleKey

/-- The keys of the differences of one kind. -/
def reported (nftRuleKey : Rule → Option κ) (reason : DriftReason) (drift : List Drift) :
    Multiset (Option κ) :=
  keysOf nftRuleKey ((drift.filter fun d => d.reason = reason).map Drift.rule)

theorem cons_sub_of_notMem {α : Type} [DecidableEq α] {a : α} {s t : Multiset α} (h : a ∉ t) :
    a ::ₘ s - t = a ::ₘ (s - t) := by
  ext x
  by_cases hx : x = a
  · subst hx
    simp [Multiset.count_eq_zero_of_notMem h]
  · simp [hx]

variable {nftRuleKey : Rule → Option κ} {filed loaded rules : List Rule}

/-- One pass, with the counts it has left. -/
theorem keysOf_unmatched (h : ∀ rule ∈ rules, nftRuleKey rule ≠ none) (remaining : Multiset κ) :
    keysOf nftRuleKey (unmatched (nftKeys nftRuleKey rules) remaining) =
      keysOf nftRuleKey rules - remaining.map some := by
  induction rules generalizing remaining with
  | nil => exact (Multiset.zero_sub _).symm
  | cons rule rules ih =>
    obtain ⟨key, hkey⟩ := Option.ne_none_iff_exists'.mp (h rule mem_cons_self)
    have ih' := ih fun rule' h' => h rule' (mem_cons_of_mem rule h')
    have hkeys : keysOf nftRuleKey (rule :: rules) = some key ::ₘ keysOf nftRuleKey rules := by
      simp [keysOf, hkey]
    rw [nftKeys, map_cons, hkey, unmatched, hkeys]
    split
    next hmem =>
      obtain ⟨rest, rfl⟩ := Multiset.exists_cons_of_mem hmem
      rw [Multiset.erase_cons_head, Multiset.map_cons, Multiset.sub_cons, Multiset.erase_cons_head]
      exact ih' rest
    next hmem =>
      rw [cons_sub_of_notMem (by simpa using hmem), ← ih' remaining, ← nftKeys]
      simp [keysOf, hkey]

omit [DecidableEq κ] in
theorem counts_of_renderable (h : ∀ rule ∈ rules, nftRuleKey rule ≠ none) :
    unreadable (nftKeys nftRuleKey rules) = [] ∧
      (nftCounts (nftKeys nftRuleKey rules)).map some = keysOf nftRuleKey rules := by
  induction rules with
  | nil => exact ⟨rfl, rfl⟩
  | cons rule rules ih =>
    obtain ⟨key, hkey⟩ := Option.ne_none_iff_exists'.mp (h rule mem_cons_self)
    obtain ⟨hread, hcounts⟩ := ih fun rule' h' => h rule' (mem_cons_of_mem rule h')
    simp_all [unreadable, nftCounts, nftKeys, keysOf]

/-- **Drift is a difference of multisets**, and where a rule of the file cannot be compared none of the
kernel is said to be lost. -/
theorem nftDrift_multisets (nftRuleKey : Rule → Option κ) (filed loaded : List Rule) :
    ((∀ rule ∈ filed ++ loaded, nftRuleKey rule ≠ none) →
      (∀ key, (reported nftRuleKey .notLoaded (nftDrift nftRuleKey filed loaded)).count key =
          (keysOf nftRuleKey filed).count key - (keysOf nftRuleKey loaded).count key ∧
        (reported nftRuleKey .notPersisted (nftDrift nftRuleKey filed loaded)).count key =
          (keysOf nftRuleKey loaded).count key - (keysOf nftRuleKey filed).count key) ∧
      (nftDrift nftRuleKey filed loaded = [] ↔ keysOf nftRuleKey filed = keysOf nftRuleKey loaded)) ∧
    ((∃ rule ∈ filed, nftRuleKey rule = none) →
      ∀ d ∈ nftDrift nftRuleKey filed loaded, d.reason ≠ .notPersisted) := by
  constructor
  · intro h
    obtain ⟨hfiled, hloaded⟩ := forall_mem_append.mp h
    obtain ⟨hreadf, hcountsf⟩ := counts_of_renderable hfiled
    obtain ⟨hreadl, hcountsl⟩ := counts_of_renderable hloaded
    have hfirst := keysOf_unmatched hfiled (nftCounts (nftKeys nftRuleKey loaded))
    have hsecond := keysOf_unmatched hloaded (nftCounts (nftKeys nftRuleKey filed))
    rw [hcountsl] at hfirst
    rw [hcountsf] at hsecond
    refine ⟨fun key => ?_, ?_⟩
    · rw [← Multiset.count_sub, ← Multiset.count_sub, ← hfirst, ← hsecond]
      simp [reported, nftDrift, hreadf, hreadl, filter_map, Function.comp_def]
    · rw [le_antisymm_iff (a := keysOf nftRuleKey filed), ← tsub_eq_zero_iff_le, ← tsub_eq_zero_iff_le,
        ← hfirst, ← hsecond]
      simp [keysOf, nftDrift, hreadf, hreadl]
  · rintro ⟨rule, hrule, hkey⟩ d hd
    have hpos : 0 < (unreadable (nftKeys nftRuleKey filed)).length := by
      rw [length_pos_iff_exists_mem]
      exact ⟨rule, by simpa [unreadable, nftKeys] using ⟨hrule, hkey⟩⟩
    simp only [nftDrift, hpos, if_true, mem_append, mem_map] at hd
    rcases hd with (⟨_, -, rfl⟩ | ⟨_, -, rfl⟩) | ⟨_, -, rfl⟩ <;> simp

def ruleOf (text : Str) : Rule := ⟨[], [], [], text, []⟩

/-- A rule filed twice and loaded once, and a rule of the file that cannot be compared. -/
theorem nftDrift_multisets_twice :
    (reported (some ∘ Rule.text) .notLoaded (nftDrift (some ∘ Rule.text) [ruleOf [1], ruleOf [1]]
        [ruleOf [2], ruleOf [1]])).count (some [1]) = 1 ∧
      ∀ d ∈ nftDrift (fun _ => (none : Option Str)) [ruleOf [1]] [ruleOf [2]],
        d.reason ≠ .notPersisted := by
  constructor
  · rw [(((nftDrift_multisets _ _ _).1 (by simp)).1 _).1]
    rfl
  · exact (nftDrift_multisets _ _ _).2 ⟨_, mem_cons_self, rfl⟩

end Flotestro.Firewall
