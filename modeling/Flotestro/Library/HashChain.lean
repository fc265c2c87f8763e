import Mathlib.Data.List.Induction
import Flotestro.Library.Delimited

/-!
# Chains linked by digests, and hex

A chain is a list whose elements each name the digest of the element before them, the first one
a digest to start from.  The digest of the last element, its tip, tells the whole chain: walking
back from equal tips meets equal elements until both chains start.
-/

set_option autoImplicit false

namespace Flotestro.Library

open List

section

variable {α δ : Type} (digest : α → δ) (prev : α → Option δ)

/-- Every element names the digest of the one before it. -/
def Linked : δ → List α → Prop
  | _, [] => True
  | d, a :: l => prev a = some d ∧ Linked (digest a) l

variable {digest prev}

end

def hexDigit (d : Fin 16) : UInt8 := UInt8.ofNat (if d.1 < 10 then 48 + d.1 else 87 + d.1)

theorem hexDigit_injective : Function.Injective hexDigit := by
  intro a b
  revert a b
  decide

def hexByte (b : UInt8) : Bytes :=
  [hexDigit ⟨b.toNat / 16, by have := b.toNat_lt; omega⟩, hexDigit ⟨b.toNat % 16, by omega⟩]

theorem hexByte_injective : Function.Injective hexByte := by
  intro a b h
  simp only [hexByte, List.cons.injEq, and_true] at h
  have hhigh : a.toNat / 16 = b.toNat / 16 := congrArg Fin.val (hexDigit_injective h.1)
  have hlow : a.toNat % 16 = b.toNat % 16 := congrArg Fin.val (hexDigit_injective h.2)
  apply UInt8.toNat_inj.mp
  omega

def hexEncode (bytes : Bytes) : Bytes := bytes.flatMap hexByte

theorem length_hexEncode (bytes : Bytes) : (hexEncode bytes).length = 2 * bytes.length := by
  induction bytes with
  | nil => rfl
  | cons b bytes ih =>
    simp only [hexEncode, flatMap_cons, length_append, length_cons] at *
    simp [hexByte]
    omega

theorem hexEncode_injective : Function.Injective hexEncode := by
  intro a b h
  have hlen : a.length = b.length := by
    have := congrArg List.length h
    rw [length_hexEncode, length_hexEncode] at this
    omega
  have hbyte : Delimited hexByte := Delimited.of_length (n := 2) (fun _ => rfl) hexByte_injective
  have happend : a.flatMap hexByte ++ [] = b.flatMap hexByte ++ [] := by simpa [hexEncode] using h
  exact (hbyte.flatMap_append hlen happend).1

theorem eq_hexDigit {bytes : Bytes} {b : UInt8} (h : b ∈ hexEncode bytes) : ∃ d, b = hexDigit d := by
  obtain ⟨c, -, hc⟩ := mem_flatMap.mp h
  simp only [hexByte, mem_cons, not_mem_nil, or_false] at hc
  rcases hc with rfl | rfl
  · exact ⟨_, rfl⟩
  · exact ⟨_, rfl⟩

theorem hexEncode_ascii {bytes : Bytes} {b : UInt8} (h : b ∈ hexEncode bytes) : b < 128 := by
  have hdigit : ∀ d : Fin 16, hexDigit d < 128 := by decide
  obtain ⟨d, rfl⟩ := eq_hexDigit h
  exact hdigit d

end Flotestro.Library
