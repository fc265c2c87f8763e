import Flotestro.Library.Slice

/-!
# Encodings that tell their own end

An encoding is delimited when no byte string starts with the encodings of two values:
what follows the encoding of a value can then never be read as part of it.  A sequence of
delimited encodings is delimited, so a format written field by field is read back in one
way whatever the fields hold.  The building blocks are a 64-bit word, a byte string behind
its length, and a list behind its count.
-/

set_option autoImplicit false

namespace Flotestro.Library

open List

/-- The end of the encoding of a value is told by the encoding itself. -/
def Delimited {α : Type} (enc : α → Bytes) : Prop :=
  ∀ ⦃a b : α⦄ ⦃s t : Bytes⦄, enc a ++ s = enc b ++ t → a = b ∧ s = t

section

variable {α β : Type} {enc : α → Bytes}

/-- The first of several delimited values is peeled off an equation. -/
theorem Delimited.append_iff (h : Delimited enc) {a b : α} {s t : Bytes} :
    enc a ++ s = enc b ++ t ↔ a = b ∧ s = t := by
  constructor
  · intro heq
    exact h heq
  · rintro ⟨rfl, rfl⟩
    rfl

theorem Delimited.eq_iff (h : Delimited enc) {a b : α} : enc a = enc b ↔ a = b := by
  have hiff := h.append_iff (a := a) (b := b) (s := []) (t := [])
  simpa using hiff

theorem Delimited.of_length {n : Nat} (hlen : ∀ a, (enc a).length = n)
    (hinj : Function.Injective enc) : Delimited enc := by
  intro a b s t h
  obtain ⟨hab, hst⟩ := append_inj h (by rw [hlen, hlen])
  exact ⟨hinj hab, hst⟩

theorem Delimited.comp (h : Delimited enc) {f : β → α} (hf : Function.Injective f) :
    Delimited fun b => enc (f b) := by
  intro a b s t heq
  obtain ⟨hab, hst⟩ := h heq
  exact ⟨hf hab, hst⟩

theorem Delimited.prod {enc' : β → Bytes} (h : Delimited enc) (h' : Delimited enc') :
    Delimited fun p : α × β => enc p.1 ++ enc' p.2 := by
  intro p q s t heq
  simp only [append_assoc] at heq
  obtain ⟨hfst, hrest⟩ := h heq
  obtain ⟨hsnd, hst⟩ := h' hrest
  exact ⟨Prod.ext hfst hsnd, hst⟩

/-- A run of delimited values is told apart once its length is known. -/
theorem Delimited.flatMap_append (h : Delimited enc) {l l' : List α} {s t : Bytes}
    (hlen : l.length = l'.length) (heq : l.flatMap enc ++ s = l'.flatMap enc ++ t) :
    l = l' ∧ s = t := by
  induction l generalizing l' with
  | nil =>
    have : l' = [] := length_eq_zero_iff.mp hlen.symm
    subst this
    exact ⟨rfl, by simpa using heq⟩
  | cons a l ih =>
    cases l' with
    | nil => simp at hlen
    | cons b l' =>
      simp only [flatMap_cons, append_assoc] at heq
      obtain ⟨rfl, hrest⟩ := h heq
      obtain ⟨rfl, hst⟩ := ih (by simpa using hlen) hrest
      exact ⟨rfl, hst⟩

end

/-- A 64-bit number in eight bytes, most significant first. -/
def word (v : UInt64) : Bytes := (putLE 8 v.toNat).reverse

theorem word_injective : Function.Injective word := by
  intro v w h
  have hle : putLE 8 v.toNat = putLE 8 w.toNat := reverse_injective h
  have hv : getLE (putLE 8 v.toNat) = v.toNat := getLE_putLE_of_lt v.toNat_lt
  have hw : getLE (putLE 8 w.toNat) = w.toNat := getLE_putLE_of_lt w.toNat_lt
  apply UInt64.toNat_inj.mp
  rw [← hv, ← hw, hle]

theorem delimited_word : Delimited word :=
  Delimited.of_length (n := 8) (fun v => by simp [word]) word_injective

/-- The length of a slice as the 64-bit number written in front of it. -/
def count {α : Type} (l : Slice α) : UInt64 := UInt64.ofNat l.1.length

theorem count_eq_iff {α : Type} {l l' : Slice α} : count l = count l' ↔ l.1.length = l'.1.length := by
  have hl : (count l).toNat = l.1.length := by
    have := l.2
    exact Nat.mod_eq_of_lt (by omega)
  have hl' : (count l').toNat = l'.1.length := by
    have := l'.2
    exact Nat.mod_eq_of_lt (by omega)
  rw [← UInt64.toNat_inj, hl, hl']

def counted {α : Type} (enc : α → Bytes) (l : Slice α) : Bytes :=
  word (count l) ++ l.1.flatMap enc

theorem Delimited.counted {α : Type} {enc : α → Bytes} (h : Delimited enc) :
    Delimited (Library.counted enc) := by
  intro l l' s t heq
  obtain ⟨hcount, hrest⟩ := delimited_word heq
  obtain ⟨hl, hst⟩ := h.flatMap_append (count_eq_iff.mp hcount) hrest
  exact ⟨Subtype.ext hl, hst⟩

/-- A byte string behind its length. -/
def chunk (b : Text) : Bytes := word (count b) ++ b.1

theorem delimited_chunk : Delimited chunk := by
  intro a b s t h
  obtain ⟨hcount, hrest⟩ := delimited_word h
  obtain ⟨hab, hst⟩ := append_inj hrest (count_eq_iff.mp hcount)
  exact ⟨Subtype.ext hab, hst⟩

end Flotestro.Library
