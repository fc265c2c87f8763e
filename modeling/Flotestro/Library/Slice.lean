import Mathlib.Data.List.Lex
import Flotestro.Library.Bytes
import Flotestro.Library.Sorting

/-!
# Slices, strings and dictionaries of the source language

A loop that reads an array from front to back and writes what it keeps to the front of the same array
keeps what a filter keeps.  A slice has a length that is a signed 64-bit number, and so have a string
and a dictionary.  Strings are compared byte by byte; `sortTexts` puts them in that order.
-/

set_option autoImplicit false

namespace Flotestro.Library

open List

variable {α : Type}

/-- The loop: `i` is read next, `k` written next, at most `n` positions are left. -/
def keepFrom (keep : α → Bool) : Nat → Nat → Nat → List α → Nat × List α
  | 0, _, k, l => (k, l)
  | n + 1, i, k, l =>
    match l[i]? with
    | none => (k, l)
    | some x =>
      if keep x then keepFrom keep n (i + 1) (k + 1) (l.set k x)
      else keepFrom keep n (i + 1) k l

/-- The slice of what was kept. -/
def filterInPlace (keep : α → Bool) (l : List α) : List α :=
  let kept := keepFrom keep l.length 0 0 l
  kept.2.take kept.1

/-- The loop appends to what is written what it keeps of what is left.  The written part
never passes the read position, so the rest of the array is as it was. -/
theorem take_keepFrom (keep : α → Bool) {n i k : Nat} {l : List α} (hk : k ≤ i)
    (hn : l.length = i + n) : (keepFrom keep n i k l).2.take (keepFrom keep n i k l).1 =
      l.take k ++ (l.drop i).filter keep := by
  induction n generalizing i k l with
  | zero =>
    have hdrop : l.drop i = [] := drop_eq_nil_of_le (by omega)
    simp [keepFrom, hdrop]
  | succ n ih =>
    have hi : i < l.length := by omega
    have hdrop : l.drop i = l[i] :: l.drop (i + 1) := drop_eq_getElem_cons hi
    simp only [keepFrom, List.getElem?_eq_getElem hi]
    split
    next hkeep =>
      rw [ih (by omega) (by simp; omega)]
      rw [hdrop, filter_cons_of_pos hkeep, drop_set_of_lt (by omega)]
      have htake : (l.set k l[i]).take (k + 1) = l.take k ++ [l[i]] := by
        rw [take_succ_eq_append_getElem (by simp; omega), take_set_of_le (Nat.le_refl k)]
        simp
      rw [htake, append_assoc, singleton_append]
    next hkeep =>
      rw [ih (by omega) (by omega), hdrop, filter_cons_of_neg hkeep]

/-- **Filtering in place is filtering.** -/
@[simp] theorem filterInPlace_eq (keep : α → Bool) (l : List α) :
    filterInPlace keep l = l.filter keep := by
  have h := take_keepFrom keep (Nat.le_refl 0) (n := l.length) (l := l) (by simp)
  simpa [filterInPlace] using h

/-- A slice of the source language; its length is a signed 64-bit number. -/
abbrev Slice (α : Type) := {l : List α // l.length < 2 ^ 63}

/-- A string of the source language. -/
abbrev Text := Slice UInt8

/-- A string literal; none is too long for a string. -/
def text (s : String) : Text :=
  if h : (ascii s.toList).length < 2 ^ 63 then ⟨ascii s.toList, h⟩ else ⟨[], by decide⟩

/-- The order in which strings are sorted, byte by byte. -/
def Text.le (a b : Text) : Prop := a.1.map UInt8.toNat ≤ b.1.map UInt8.toNat

instance : DecidableRel Text.le := fun a b =>
  inferInstanceAs (Decidable (a.1.map UInt8.toNat ≤ b.1.map UInt8.toNat))

instance : Std.Total Text.le := ⟨fun a b => le_total (a.1.map UInt8.toNat) (b.1.map UInt8.toNat)⟩

instance : IsTrans Text Text.le := ⟨fun _ _ _ => le_trans⟩

theorem Text.le_antisymm_eq {a b : Text} (hab : Text.le a b) (hba : Text.le b a) : a = b := by
  have hmap : a.1.map UInt8.toNat = b.1.map UInt8.toNat := le_antisymm hab hba
  apply Subtype.ext
  exact (map_injective_iff.mpr fun x y => UInt8.toNat_inj.mp) hmap

/-- The strings in ascending order. -/
def sortTexts (l : List Text) : List Text := l.insertionSort Text.le

/-- Two lists sort to one list exactly when they hold the same strings, each as
many times. -/
theorem sortTexts_eq_iff {l l' : List Text} : sortTexts l = sortTexts l' ↔ l.Perm l' :=
  insertionSort_eq_iff fun _ _ => Text.le_antisymm_eq

theorem length_sortTexts (l : List Text) : (sortTexts l).length = l.length :=
  (perm_insertionSort _ l).length_eq

/-- A dictionary: every key is bound once; the order of the entries is the one an
iteration happens to take. -/
structure Dict (α : Type) where
  entries : Slice (Text × α)
  nodup : (entries.1.map Prod.fst).Nodup

namespace Dict

variable {α : Type}

/-- The value bound to a key. -/
def get? (d : Dict α) (key : Text) : Option α := d.entries.1.lookup key

/-- The keys, in the order of an iteration. -/
def keys (d : Dict α) : Slice Text := ⟨d.entries.1.map Prod.fst, by simpa using d.entries.2⟩

theorem get?_eq_some_iff {d : Dict α} {key : Text} {value : α} :
    d.get? key = some value ↔ (key, value) ∈ d.entries.1 := by
  obtain ⟨⟨entries, hlen⟩, hnodup⟩ := d
  change (entries.map Prod.fst).Nodup at hnodup
  change entries.lookup key = some value ↔ (key, value) ∈ entries
  clear hlen
  induction entries with
  | nil => simp
  | cons e entries ih =>
    obtain ⟨k, v⟩ := e
    simp only [map_cons, nodup_cons] at hnodup
    by_cases hk : key = k
    · subst hk
      -- the key is bound here and nowhere behind
      have hrest : (key, value) ∉ entries := fun h => hnodup.1 (mem_map.mpr ⟨_, h, rfl⟩)
      simp [hrest, eq_comm]
    · have hbeq : (key == k) = false := beq_false_of_ne hk
      simp [lookup_cons, hbeq, ih hnodup.2, hk]

theorem mem_keys_iff {d : Dict α} {key : Text} :
    key ∈ d.keys.1 ↔ ∃ value, d.get? key = some value := by
  simp [keys, get?_eq_some_iff]

end Dict

end Flotestro.Library
