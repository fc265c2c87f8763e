import Mathlib.Data.Nat.Digits.Lemmas
import Flotestro.Library.Bytes

/-!
# Numbers in decimal

A number written in decimal is read back as the number it was.
-/

set_option autoImplicit false

namespace Flotestro.Library

open List

def digitChar (d : Nat) : UInt8 := UInt8.ofNat (48 + d)

def decimal (n : Nat) : Bytes :=
  if n = 0 then [digitChar 0] else (Nat.digits 10 n).reverse.map digitChar

/-- A decimal number read, most significant digit first; none for anything else. -/
def parseDecimal : Bytes → Option Nat
  | [] => none
  | b :: rest =>
    (b :: rest).foldl (fun acc c =>
      acc.bind fun n => if 48 ≤ c ∧ c ≤ 57 then some (10 * n + (c.toNat - 48)) else none) (some 0)

theorem toNat_digitChar {d : Nat} (h : d < 10) : (digitChar d).toNat = 48 + d := by
  simp only [digitChar, UInt8.toNat_ofNat']
  omega

/-- A written digit is read as itself. -/
theorem digitChar_range {d : Nat} (h : d < 10) : 48 ≤ digitChar d ∧ digitChar d ≤ 57 := by
  constructor
  · rw [UInt8.le_iff_toNat_le, toNat_digitChar h]
    exact Nat.le_add_right 48 d
  · rw [UInt8.le_iff_toNat_le, toNat_digitChar h]
    show 48 + d ≤ 57
    omega

/-- Digits read behind a number extend it. -/
theorem foldl_digits {digits : List Nat} (h : ∀ d ∈ digits, d < 10) :
    (digits.reverse.map digitChar).foldl (fun acc c =>
      acc.bind fun n => if 48 ≤ c ∧ c ≤ 57 then some (10 * n + (c.toNat - 48)) else none) (some 0) =
      some (Nat.ofDigits 10 digits) := by
  induction digits with
  | nil => rfl
  | cons d digits ih =>
    have hd : d < 10 := h d mem_cons_self
    rw [reverse_cons, map_append, foldl_append,
      ih fun e he => h e (mem_cons_of_mem _ he)]
    simp only [map_cons, map_nil, foldl_cons, foldl_nil, Option.bind_some,
      if_pos (digitChar_range hd), toNat_digitChar hd, Nat.ofDigits_cons]
    congr 1
    omega

theorem decimal_ne_nil (n : Nat) : decimal n ≠ [] := by
  unfold decimal
  split
  · simp
  next h => simpa [Nat.digits_eq_nil_iff_eq_zero] using h

/-- **A number is read back from its decimal.** -/
theorem parseDecimal_decimal (n : Nat) : parseDecimal (decimal n) = some n := by
  cases hdecimal : decimal n with
  | nil => exact absurd hdecimal (decimal_ne_nil n)
  | cons b rest =>
    rw [parseDecimal, ← hdecimal]
    unfold decimal
    split
    next h =>
      subst h
      decide
    · rw [foldl_digits fun d hd => Nat.digits_lt_base (by decide) hd, Nat.ofDigits_digits]

theorem decimal_range {n : Nat} {b : UInt8} (h : b ∈ decimal n) : 48 ≤ b ∧ b ≤ 57 := by
  unfold decimal at h
  split at h
  · rw [mem_singleton.mp h]
    decide
  · obtain ⟨d, hd, rfl⟩ := mem_map.mp h
    exact digitChar_range (Nat.digits_lt_base (by decide) (mem_reverse.mp hd))

end Flotestro.Library
