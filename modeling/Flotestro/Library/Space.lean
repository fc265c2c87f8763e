import Flotestro.Library.Bytes

/-!
# White space at the ends of a text

The white space characters of Unicode in their UTF-8 encodings, and the text without those at
its ends.  No encoding is a part of another one or of the encoding of another character, so
the ends can be compared byte by byte.
-/

set_option autoImplicit false

namespace Flotestro.Library

open List

/-- The encodings of the white space characters. -/
def spaces : List Bytes :=
  [[0x09], [0x0A], [0x0B], [0x0C], [0x0D], [0x20], [0xC2, 0x85], [0xC2, 0xA0], [0xE1, 0x9A, 0x80],
    [0xE2, 0x80, 0x80], [0xE2, 0x80, 0x81], [0xE2, 0x80, 0x82], [0xE2, 0x80, 0x83],
    [0xE2, 0x80, 0x84], [0xE2, 0x80, 0x85], [0xE2, 0x80, 0x86], [0xE2, 0x80, 0x87],
    [0xE2, 0x80, 0x88], [0xE2, 0x80, 0x89], [0xE2, 0x80, 0x8A], [0xE2, 0x80, 0xA8],
    [0xE2, 0x80, 0xA9], [0xE2, 0x80, 0xAF], [0xE2, 0x81, 0x9F], [0xE3, 0x80, 0x80]]

/-- Drop words of `ws` from the front, at most `n` of them. -/
def dropWords (ws : List Bytes) : Nat → Bytes → Bytes
  | 0, b => b
  | n + 1, b =>
    match ws.find? fun w => w.isPrefixOf b with
    | some w => dropWords ws n (b.drop w.length)
    | none => b

/-- The text without white space at its ends. -/
def trimSpace (b : Bytes) : Bytes :=
  let front := dropWords spaces b.length b
  (dropWords (spaces.map List.reverse) front.length front.reverse).reverse

/-- Nothing is dropped in front of a byte that is in no word. -/
theorem dropWords_cons {ws : List Bytes} {x : UInt8} (hws : ∀ w ∈ ws, w ≠ [] ∧ x ∉ w) (n : Nat)
    (b : Bytes) : dropWords ws n (x :: b) = x :: b := by
  cases n with
  | zero => rfl
  | succ n =>
    have hfind : ws.find? (fun w => w.isPrefixOf (x :: b)) = none := by
      apply find?_eq_none.mpr
      intro w hw hfront
      obtain ⟨hne, hnotMem⟩ := hws w hw
      obtain ⟨t, ht⟩ : w <+: x :: b := isPrefixOf_iff_prefix.mp hfront
      cases w with
      | nil => exact hne rfl
      | cons y w =>
        have hxy : y = x := by simpa using congrArg List.head? ht
        exact hnotMem (hxy ▸ mem_cons_self)
    simp [dropWords, hfind]

example : trimSpace (ascii " a b\t\n".toList) = ascii "a b".toList := by decide

end Flotestro.Library
