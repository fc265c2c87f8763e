import Mathlib.Data.List.Nodup

/-!
# Tables with a primary key

Rows in a list, with an update of the row of one key, and what two states of a table have in common
when every row of the one is related to the row at its place in the other.
-/

set_option autoImplicit false

namespace Flotestro.Library

open List
variable {α κ : Type}

section

variable {R : α → α → Prop} {l l' l'' : List α}

theorem forall₂_trans {S T : α → α → Prop} (h : Forall₂ R l l') (h' : Forall₂ S l' l'')
    (hT : ∀ a b c, R a b → S b c → T a c) : Forall₂ T l l'' := by
  induction h generalizing l'' with
  | nil =>
    cases h'
    exact .nil
  | cons hab _ ih =>
    obtain ⟨c, rest, hbc, hrest, rfl⟩ := forall₂_cons_left_iff.mp h'
    exact .cons (hT _ _ c hab hbc) (ih hrest)

section
variable (h : Forall₂ R l l')
include h

theorem forall₂_set {a b : α} (hab : R a b) (i : Nat) : Forall₂ R (l.set i a) (l'.set i b) := by
  induction h generalizing i with
  | nil => exact .nil
  | cons hrow hrest ih =>
    cases i with
    | zero => exact .cons hab hrest
    | succ i => exact .cons hrow (ih i)

omit h in
theorem getElem?_of_forall₂ {β : Type} {S : α → β → Prop} {bs : List β} (h : Forall₂ S l bs)
    {i : Nat} {b : β} (hb : bs[i]? = some b) : ∃ a, l[i]? = some a ∧ S a b := by
  induction h generalizing i with
  | nil => cases hb
  | cons hac _ ih =>
    cases i with
    | zero =>
      cases hb
      exact ⟨_, rfl, hac⟩
    | succ i => exact ih hb

omit h in
theorem exists_of_mem_forall₂ {β : Type} {S : α → β → Prop} {bs : List β} (h : Forall₂ S l bs)
    {b : β} (hb : b ∈ bs) : ∃ a ∈ l, S a b := by
  obtain ⟨i, hi⟩ := getElem?_of_mem hb
  obtain ⟨a, ha, hab⟩ := getElem?_of_forall₂ h hi
  exact ⟨a, mem_of_getElem? ha, hab⟩

theorem countP_le_of_forall₂ {q : α → Bool}
    (hq : ∀ a b, R a b → q b = true → q a = true) : l'.countP q ≤ l.countP q := by
  induction h with
  | nil => exact Nat.le_refl _
  | @cons a b l l' hab _ ih =>
    rw [countP_cons, countP_cons]
    by_cases hb : q b = true
    · rw [if_pos hb, if_pos (hq a b hab hb)]
      exact Nat.add_le_add_right ih 1
    · rw [if_neg hb]
      exact Nat.le_trans ih (Nat.le_add_right _ _)

theorem map_eq_of_forall₂ {f : α → κ} (hf : ∀ a b, R a b → f b = f a) : l'.map f = l.map f := by
  induction h with
  | nil => rfl
  | @cons a b l l' hab _ ih => rw [map_cons, map_cons, hf a b hab, ih]

/-- What holds of every row of the later table is added to the relation. -/
theorem forall₂_and_right {P : α → Prop} (hP : ∀ b ∈ l', P b) :
    Forall₂ (fun a b => R a b ∧ P b) l l' := by
  induction h with
  | nil => exact .nil
  | cons hab _ ih =>
    exact .cons ⟨hab, hP _ mem_cons_self⟩ (ih fun b hb => hP b (mem_cons_of_mem _ hb))

end

end

section

variable [DecidableEq κ] (key : α → κ)

def updateKey (k : κ) (f : α → α) (rows : List α) : List α :=
  rows.map fun row => if key row = k then f row else row

variable {key} {k : κ} {f : α → α} {rows : List α}

theorem map_key_updateKey (hf : ∀ row, key (f row) = key row) :
    (updateKey key k f rows).map key = rows.map key := by
  rw [updateKey, map_map]
  refine map_congr_left fun row _ => ?_
  dsimp only [Function.comp_apply]
  split
  · exact hf row
  · rfl

/-- The relation holds between a table and its update, if it holds for the row of the key. -/
theorem forall₂_updateKey {R : α → α → Prop} (hrefl : ∀ row, R row row) (hrows : (rows.map key).Nodup)
    {row : α} (hrow : row ∈ rows) (hR : R row (f row)) :
    Forall₂ R rows (updateKey key (key row) f rows) := by
  refine forall₂_map_right_iff.mpr (forall₂_same.mpr fun other hother => ?_)
  split
  next hkey =>
    obtain rfl := inj_on_of_nodup_map hrows hother hrow hkey
    exact hR
  · exact hrefl other

/-- The rows of the key leave a condition that none of their updates meets. -/
theorem filter_updateKey {q : α → Bool} (hf : ∀ row, q (f row) = false) :
    (updateKey key k f rows).filter q = (rows.filter q).filter fun row => key row ≠ k := by
  induction rows with
  | nil => rfl
  | cons first rest ih =>
    rw [updateKey, map_cons, ← updateKey]
    by_cases hk : key first = k <;> by_cases hq : q first = true <;> simp [hk, hq, hf, ih]

/-- A key that is taken out of the middle of a table. -/
theorem filter_ne_append {row : α} {before after : List α}
    (h : ((before ++ row :: after).map key).Nodup) :
    (before ++ row :: after).filter (fun other => key other ≠ key row) = before ++ after := by
  rw [map_append, map_cons, nodup_middle, nodup_cons, mem_append, not_or] at h
  have hkeep : ∀ {l : List α}, key row ∉ l.map key → l.filter (fun other => key other ≠ key row) = l := by
    intro l hl
    refine filter_eq_self.mpr fun other hother => decide_eq_true fun hk => hl ?_
    exact mem_map.mpr ⟨other, hother, hk⟩
  rw [filter_append, filter_cons_of_neg (by simp), hkeep h.1.1, hkeep h.1.2]

end

end Flotestro.Library
