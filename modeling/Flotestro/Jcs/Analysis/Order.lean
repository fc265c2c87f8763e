import Flotestro.Jcs.Model.Canonical
import Mathlib.Data.List.Lex

/-!
# The order of members

The comparison of names is the lexicographic one on their UTF-16 code units, on the fast path for
ASCII too, and different names have different code units.  So the members of an object with distinct
names have one order, whatever order they were given in.
-/

set_option autoImplicit false

namespace Flotestro.Jcs

open Library List

theorem lessUnits_iff (a b : List Nat) : lessUnits a b = true ↔ a < b := by
  fun_induction lessUnits a b with
  | case1 right =>
    cases right with
    | nil | cons b right => simp
  | case2 a left => simp
  | case3 a left b right h => simp [cons_lt_cons_iff, h]
  | case4 a left b right h ih =>
    have hab : a = b := not_not.mp h
    rw [ih, hab]
    simp

theorem units_of_ascii {c : Char} (h : c.toNat < 128) : units c = [c.toNat] :=
  if_pos (by omega)

theorem utf16_of_isASCII {s : Chars} (h : isASCII s = true) : utf16 s = s.map Char.toNat := by
  induction s with
  | nil => rfl
  | cons c s ih =>
    unfold isASCII at h
    rw [all_cons, Bool.and_eq_true, decide_eq_true_iff] at h
    rw [utf16, flatMap_cons, units_of_ascii h.1, map_cons, ← ih h.2]
    rfl

/-- The fast path compares what the other path does. -/
theorem lessUTF16_iff (a b : Chars) : lessUTF16 a b = true ↔ utf16 a < utf16 b := by
  unfold lessUTF16
  split
  next h =>
    rw [Bool.and_eq_true] at h
    rw [utf16_of_isASCII h.1, utf16_of_isASCII h.2, lessUnits_iff]
  · exact lessUnits_iff _ _

theorem toNat_valid (c : Char) : c.toNat < 0xD800 ∨ (0xDFFF < c.toNat ∧ c.toNat < 0x110000) :=
  c.valid

theorem units_append_inj {c c' : Char} {s s' : List Nat} (h : units c ++ s = units c' ++ s') :
    c = c' ∧ s = s' := by
  have hc := toNat_valid c
  have hc' := toNat_valid c'
  have hof : c.toNat = c'.toNat → c = c' := fun h => by
    rw [← Char.ofNat_toNat c, h, Char.ofNat_toNat]
  unfold units at h
  split at h
  next hsmall =>
    split at h
    · injection h with hhead htail
      exact ⟨hof hhead, htail⟩
    · injection h with hhead
      omega
  next hlarge =>
    split at h
    · injection h with hhead
      omega
    · injection h with hhead htail
      injection htail with hsecond htail
      exact ⟨hof (by omega), htail⟩

theorem units_ne_nil (c : Char) : units c ≠ [] := by
  unfold units
  split
  all_goals exact cons_ne_nil _ _

theorem utf16_injective : Function.Injective utf16 := by
  intro s
  induction s with
  | nil =>
    intro s' h
    cases s' with
    | nil => rfl
    | cons c s' => exact absurd (append_eq_nil_iff.mp h.symm).1 (units_ne_nil c)
  | cons c s ih =>
    intro s' h
    cases s' with
    | nil => exact absurd (append_eq_nil_iff.mp h).1 (units_ne_nil c)
    | cons c' s' =>
      obtain ⟨hc, hs⟩ := units_append_inj (show units c ++ utf16 s = units c' ++ utf16 s' from h)
      rw [hc, ih hs]

section

variable {α β : Type}

/-- The order that `sortMembers` sorts by. -/
def NotAfter (m m' : Chars × α) : Prop := lessUTF16 m'.1 m.1 = false

theorem notAfter_iff (m m' : Chars × α) : NotAfter m m' ↔ utf16 m.1 ≤ utf16 m'.1 := by
  unfold NotAfter
  rw [← Bool.not_eq_true, lessUTF16_iff, not_lt]

theorem notAfter_trans : IsTrans (Chars × α) NotAfter := by
  constructor
  intro a b c hab hbc
  rw [notAfter_iff] at *
  exact le_trans hab hbc

theorem notAfter_total : Std.Total (α := Chars × α) NotAfter := by
  constructor
  intro a b
  rw [notAfter_iff, notAfter_iff]
  exact le_total _ _

theorem sortMembers_perm (ms : List (Chars × α)) : (sortMembers ms).Perm ms :=
  perm_insertionSort _ ms

theorem sortMembers_le (ms : List (Chars × α)) :
    (sortMembers ms).Pairwise fun m m' => utf16 m.1 ≤ utf16 m'.1 := by
  have htrans : IsTrans (Chars × α) fun m m' => lessUTF16 m'.1 m.1 = false := notAfter_trans
  have htotal : Std.Total (α := Chars × α) fun m m' => lessUTF16 m'.1 m.1 = false := notAfter_total
  exact (pairwise_insertionSort (fun m m' : Chars × α => lessUTF16 m'.1 m.1 = false) ms).imp
    fun h => (notAfter_iff _ _).mp h

/-- **Members come out in the order of UTF-16 code units.** -/
theorem sortMembers_lt {ms : List (Chars × α)} (hms : (ms.map Prod.fst).Nodup) :
    (sortMembers ms).Pairwise fun m m' => utf16 m.1 < utf16 m'.1 := by
  have hnodup : ((sortMembers ms).map Prod.fst).Nodup :=
    ((sortMembers_perm ms).map Prod.fst).nodup_iff.mpr hms
  have hne := pairwise_map.mp hnodup
  exact (sortMembers_le ms).imp₂ (fun m m' hle hne =>
    lt_of_le_of_ne hle fun h => hne (utf16_injective h)) hne

/-- Members with distinct names have one order. -/
theorem sortMembers_of_perm {ms ms' : List (Chars × α)} (hms : (ms.map Prod.fst).Nodup)
    (hperm : ms.Perm ms') : sortMembers ms = sortMembers ms' := by
  have hms' : (ms'.map Prod.fst).Nodup := (hperm.map Prod.fst).nodup_iff.mp hms
  have hsorted : (sortMembers ms).Perm (sortMembers ms') :=
    ((sortMembers_perm ms).trans hperm).trans (sortMembers_perm ms').symm
  exact hsorted.eq_of_pairwise (fun m m' _ _ hlt hgt => absurd hlt (lt_asymm hgt))
    (sortMembers_lt hms) (sortMembers_lt hms')

theorem sortMembers_map (f : α → β) (ms : List (Chars × α)) :
    sortMembers (ms.map fun m => (m.1, f m.2)) = (sortMembers ms).map fun m => (m.1, f m.2) :=
  (map_insertionSort (fun m m' : Chars × α => lessUTF16 m'.1 m.1 = false)
    (fun m m' : Chars × β => lessUTF16 m'.1 m.1 = false) (fun m => (m.1, f m.2)) ms
    fun _ _ _ _ => .rfl).symm

end

end Flotestro.Jcs
