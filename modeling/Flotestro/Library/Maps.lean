import Mathlib.Algebra.GroupWithZero.Nat
import Mathlib.Data.List.AList
import Mathlib.Algebra.BigOperators.Group.List.Basic
import Mathlib.Algebra.Order.Group.Nat

/-!
# Association lists and sums along them

A map of the modelled program is an `AList`.  Sums over its values are what accounts of a
component are compared with: `perm_cons_erase` says what a key contributes to the entries,
and `sum_map_update` what one changed value does to a sum.

Nothing here names a component.
-/

set_option autoImplicit false

namespace Flotestro.Library

open List
variable {α β : Type}

theorem lookup_insert_ite [DecidableEq α] (m : AList fun _ : α => β) (a a' : α) (b : β) :
    (m.insert a b).lookup a' = if a' = a then some b else m.lookup a' := by
  by_cases h : a' = a
  · subst h
    simp
  · simp [AList.lookup_insert_ne h, h]

theorem lookup_erase_ite [DecidableEq α] (m : AList fun _ : α => β) (a a' : α) :
    (m.erase a).lookup a' = if a' = a then none else m.lookup a' := by
  by_cases h : a' = a
  · subst h
    simp
  · simp [AList.lookup_erase_ne h, h]

/-- A key that is bound contributes its one entry. -/
theorem perm_cons_erase [DecidableEq α] {m : AList fun _ : α => β} {a : α} {b : β}
    (h : m.lookup a = some b) : m.entries.Perm (⟨a, b⟩ :: (m.erase a).entries) := by
  have hmem : (⟨a, b⟩ : Sigma fun _ : α => β) ∈ m.entries :=
    AList.mem_lookup_iff.mp h
  obtain ⟨b', l₁, l₂, hl₁, hl, hk⟩ :=
    exists_of_kerase (mem_keys_of_mem hmem)
  have hb : b' = b := by
    have hb' : (⟨a, b'⟩ : Sigma fun _ : α => β) ∈ m.entries := by
      rw [hl]
      simp
    have := AList.mem_lookup_iff.mpr hb'
    rw [h] at this
    exact (Option.some.inj this).symm
  subst hb
  show m.entries.Perm (⟨a, b'⟩ :: List.kerase a m.entries)
  rw [hk, hl]
  exact perm_middle

theorem mem_values_iff [DecidableEq α] {m : AList fun _ : α => β} {b : β} :
    b ∈ m.entries.map (·.2) ↔ ∃ a, m.lookup a = some b := by
  constructor
  · intro h
    obtain ⟨⟨a, b'⟩, hmem, rfl⟩ := mem_map.mp h
    exact ⟨a, AList.mem_lookup_iff.mpr hmem⟩
  · rintro ⟨a, h⟩
    exact mem_map.mpr ⟨⟨a, b⟩, AList.mem_lookup_iff.mp h, rfl⟩

/-- Values that name their key are bound once. -/
theorem nodup_values [DecidableEq α] {m : AList fun _ : α => β} {key : β → α}
    (h : ∀ a b, m.lookup a = some b → key b = a) : (m.entries.map (·.2)).Nodup := by
  have hkeys : ((m.entries.map (·.2)).map key) = m.keys := by
    rw [map_map]
    refine map_congr_left fun e he => ?_
    exact h e.1 e.2 (AList.mem_lookup_iff.mpr he)
  exact Nodup.of_map key (hkeys ▸ m.keys_nodup)

/-- A value changed outside a list does not show in a sum along it. -/
theorem map_update_of_notMem [DecidableEq α] {l : List α} {p : α} (hp : p ∉ l) (F : α → β) (b : β)
    (f : β → Nat) : (l.map fun q => f (Function.update F p b q)) = l.map fun q => f (F q) :=
  map_congr_left fun q hq => by
    have hne : q ≠ p := fun h => hp (h ▸ hq)
    rw [Function.update_of_ne hne]

/-- One changed value exchanges its old part of a sum for its new one. -/
theorem sum_map_update [DecidableEq α] {l : List α} (hl : l.Nodup) {p : α} (hp : p ∈ l)
    (F : α → β) (b : β) (f : β → Nat) : (l.map fun q => f (Function.update F p b q)).sum + f (F p) =
      (l.map fun q => f (F q)).sum + f b := by
  induction l with
  | nil => simp at hp
  | cons q l ih =>
    obtain ⟨hq, hl⟩ := nodup_cons.mp hl
    by_cases hqp : q = p
    · subst hqp
      simp only [map_cons, sum_cons, Function.update_self, map_update_of_notMem hq]
      omega
    · have hmem : p ∈ l := (mem_cons.mp hp).resolve_left (Ne.symm hqp)
      have := ih hl hmem
      simp only [map_cons, sum_cons, Function.update_of_ne hqp]
      omega

end Flotestro.Library
