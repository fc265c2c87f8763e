import Flotestro.Library.Decimal
import Flotestro.Library.HashChain
import Flotestro.Library.Space

/-!
# Signed numbers and hex, read back

A signed number of 64 bits in decimal and bytes in hex, with their readers.
-/

set_option autoImplicit false

namespace Flotestro.Library

open List

def Int64Range (x : Int) : Prop := -2 ^ 63 ≤ x ∧ x < 2 ^ 63

instance decidableInt64Range (x : Int) : Decidable (Int64Range x) :=
  inferInstanceAs (Decidable (_ ∧ _))

/-- A result in 64 bits, as it wraps around. -/
def wrap64 (x : Int) : Int := (x + 2 ^ 63) % 2 ^ 64 - 2 ^ 63

theorem wrap64_of_range {x : Int} (h : Int64Range x) : wrap64 x = x := by
  obtain ⟨hlow, hhigh⟩ := h
  unfold wrap64
  rw [Int.emod_eq_of_lt] <;> omega

/-- A signed number in decimal. -/
def formatInt (x : Int) : Bytes := if x < 0 then 45 :: decimal x.natAbs else decimal x.natAbs

/-- A signed number of 64 bits read; none for anything else. -/
def parseInt (text : Bytes) : Option Int :=
  let number : Option Int :=
    match text with
    | 45 :: digits => (parseDecimal digits).map fun n => -(n : Int)
    | 43 :: digits => (parseDecimal digits).map fun n => (n : Int)
    | digits => (parseDecimal digits).map fun n => (n : Int)
  number.filter fun x => decide (Int64Range x)

theorem formatInt_range {x : Int} {b : UInt8} (h : b ∈ formatInt x) : 45 ≤ b ∧ b ≤ 57 := by
  have hdigit : ∀ {n : Nat} {b : UInt8}, b ∈ decimal n → 45 ≤ b ∧ b ≤ 57 := fun hb =>
    ⟨UInt8.le_trans (by decide) (decimal_range hb).1, (decimal_range hb).2⟩
  unfold formatInt at h
  split at h
  · rcases mem_cons.mp h with rfl | h
    · decide
    · exact hdigit h
  · exact hdigit h

theorem formatInt_ne_nil (x : Int) : formatInt x ≠ [] := by
  unfold formatInt
  split
  · exact cons_ne_nil _ _
  · exact decimal_ne_nil _

/-- **A signed number is read back from its decimal.** -/
theorem parseInt_formatInt {x : Int} (h : Int64Range x) : parseInt (formatInt x) = some x := by
  have hnumber : ∀ {y : Int}, y = x →
      (some y : Option Int).filter (fun z => decide (Int64Range z)) = some x := by
    rintro y rfl
    exact Option.filter_eq_some_iff.mpr ⟨rfl, decide_eq_true h⟩
  unfold formatInt
  split
  next hneg =>
    simp only [parseInt, parseDecimal_decimal]
    refine hnumber ?_
    show -(x.natAbs : Int) = x
    omega
  next hpos =>
    unfold parseInt
    have hfirst : ∀ b rest, decimal x.natAbs = b :: rest → 48 ≤ b := fun b rest heq =>
      (decimal_range (heq ▸ mem_cons_self)).1
    split
    next digits heq => exact absurd (hfirst _ _ heq) (by decide)
    next digits heq => exact absurd (hfirst _ _ heq) (by decide)
    · simp only [parseDecimal_decimal]
      refine hnumber ?_
      show (x.natAbs : Int) = x
      omega

/-- Nothing is trimmed from a text of bytes that are in no white space. -/
theorem trimSpace_of_forall {b : Bytes} (h : ∀ x ∈ b, ∀ w ∈ spaces, x ∉ w) : trimSpace b = b := by
  have hne : ∀ w ∈ spaces, w ≠ [] := by decide
  have hfront : dropWords spaces b.length b = b := by
    cases b with
    | nil => rfl
    | cons x b => exact dropWords_cons (fun w hw => ⟨hne w hw, h x mem_cons_self w hw⟩) _ b
  have hback : dropWords (spaces.map List.reverse) b.length b.reverse = b.reverse := by
    cases hreverse : b.reverse with
    | nil =>
      rw [reverse_eq_nil_iff.mp hreverse]
      rfl
    | cons x r =>
      refine dropWords_cons (fun w hw => ?_) _ r
      obtain ⟨v, hv, rfl⟩ := mem_map.mp hw
      have hx : x ∈ b := mem_reverse.mp (hreverse ▸ mem_cons_self)
      exact ⟨by simpa using hne v hv, by simpa using h x hx v hv⟩
  unfold trimSpace
  dsimp only
  rw [hfront, hback, reverse_reverse]

set_option maxRecDepth 4000 in
theorem trimSpace_formatInt (x : Int) : trimSpace (formatInt x) = formatInt x := by
  refine trimSpace_of_forall fun b hb w hw hbw => ?_
  have hspaces : ∀ w ∈ spaces, ∀ b ∈ w, ¬(45 ≤ b ∧ b ≤ 57) := by decide
  exact hspaces w hw b hbw (formatInt_range hb)

/-- The value of a hex digit, in lower or upper case. -/
def hexNibble (c : UInt8) : Option Nat :=
  if 48 ≤ c ∧ c ≤ 57 then some (c.toNat - 48)
  else if 97 ≤ c ∧ c ≤ 102 then some (c.toNat - 87)
  else if 65 ≤ c ∧ c ≤ 70 then some (c.toNat - 55)
  else none

/-- Bytes read from their hex; none for an odd length or another character. -/
def hexDecode : Bytes → Option Bytes
  | [] => some []
  | [_] => none
  | a :: b :: rest =>
    match hexNibble a, hexNibble b, hexDecode rest with
    | some high, some low, some bytes => some (UInt8.ofNat (16 * high + low) :: bytes)
    | _, _, _ => none

theorem hexNibble_hexDigit (d : Fin 16) : hexNibble (hexDigit d) = some d.1 := by
  revert d
  decide

/-- **Bytes are read back from their hex.** -/
theorem hexDecode_hexEncode (bytes : Bytes) : hexDecode (hexEncode bytes) = some bytes := by
  induction bytes with
  | nil => rfl
  | cons b bytes ih =>
    have hbyte : 16 * (b.toNat / 16) + b.toNat % 16 = b.toNat := Nat.div_add_mod b.toNat 16
    change hexDecode (hexDigit _ :: hexDigit _ :: hexEncode bytes) = _
    rw [hexDecode, hexNibble_hexDigit, hexNibble_hexDigit, ih]
    dsimp only
    rw [hbyte, UInt8.ofNat_toNat]

theorem hexEncode_range {bytes : Bytes} {b : UInt8} (h : b ∈ hexEncode bytes) : 48 ≤ b := by
  have hdigit : ∀ d : Fin 16, 48 ≤ hexDigit d := by decide
  obtain ⟨d, rfl⟩ := eq_hexDigit h
  exact hdigit d

end Flotestro.Library
