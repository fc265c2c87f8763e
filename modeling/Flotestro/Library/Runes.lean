import Mathlib.Data.List.DropRight

/-!
# Strings as runes

A string of the source language is a list of bytes that is read as UTF-8: a list of runes, where a byte
that is part of no code point stands for itself.  The words of a text between white space, and a string
that is split at a character.
-/

set_option autoImplicit false

namespace Flotestro.Library

open List

namespace Words

variable {α : Type} (space : α → Bool) (s : List α)

/-- The text without white space at its ends. -/
def trim : List α := (s.dropWhile space).rdropWhile space

/-- A word in front of others, where there is one. -/
def consWord (w : List α) (ws : List (List α)) : List (List α) :=
  match w with
  | [] => ws
  | _ :: _ => w :: ws

/-- The word a text begins with, empty at white space, and the words behind it. -/
def scan : List α → List α × List (List α)
  | [] => ([], [])
  | c :: s =>
    if space c then ([], consWord (scan s).1 (scan s).2) else (c :: (scan s).1, (scan s).2)

def fields : List (List α) := consWord (scan space s).1 (scan space s).2

/-- Texts with a separator between them. -/
def join (sep : α) : List (List α) → List α
  | [] => []
  | [w] => w
  | w :: w' :: ws => w ++ sep :: join sep (w' :: ws)

/-- A character of joined texts is the separator or stands in one of them. -/
theorem mem_join {sep c : α} {ws : List (List α)} (h : c ∈ join sep ws) :
    c = sep ∨ ∃ w ∈ ws, c ∈ w := by
  induction ws with
  | nil => cases h
  | cons w ws ih =>
    cases ws with
    | nil => exact .inr ⟨w, mem_cons_self, h⟩
    | cons v ws =>
      rcases mem_append.mp h with h | h
      · exact .inr ⟨w, mem_cons_self, h⟩
      rcases mem_cons.mp h with rfl | h
      · exact .inl rfl
      · rcases ih h with h | ⟨u, hu, h⟩
        · exact .inl h
        · exact .inr ⟨u, mem_cons_of_mem w hu, h⟩

end Words

/-- A code point, or a byte that is part of none. -/
inductive Rune where
  | char (c : Char)
  | bad (b : UInt8)
  deriving DecidableEq

abbrev Runes := List Rune

def runes (s : String) : Runes := s.toList.map Rune.char

namespace Rune

def spacePoints : List Nat :=
  [0x09, 0x0A, 0x0B, 0x0C, 0x0D, 0x20, 0x85, 0xA0, 0x1680, 0x2000, 0x2001, 0x2002, 0x2003, 0x2004,
    0x2005, 0x2006, 0x2007, 0x2008, 0x2009, 0x200A, 0x2028, 0x2029, 0x202F, 0x205F, 0x3000]

def isSpace : Rune → Bool
  | char c => spacePoints.contains c.toNat
  | bad _ => false

/-- A letter in lower case, as far as the result is ASCII: two letters beyond ASCII have
one. -/
def toLower : Rune → Rune
  | char c =>
    if 65 ≤ c.toNat ∧ c.toNat ≤ 90 then char (Char.ofNat (c.toNat + 32))
    else if c.toNat = 0x130 then char 'i'
    else if c.toNat = 0x212A then char 'k'
    else char c
  | bad b => bad b

end Rune

namespace Runes

def trimSpace (s : Runes) : Runes := Words.trim Rune.isSpace s

def fields (s : Runes) : List Runes := Words.fields Rune.isSpace s

def consPart (c : Rune) (parts : List Runes) : List Runes :=
  match parts with
  | [] => [[c]]
  | part :: parts => (c :: part) :: parts

/-- The parts of a string between separators. -/
def split (sep : Rune) : Runes → List Runes
  | [] => [[]]
  | c :: s => if c = sep then [] :: split sep s else consPart c (split sep s)

theorem split_ne_nil (sep : Rune) (s : Runes) : split sep s ≠ [] := by
  cases s with
  | nil => exact cons_ne_nil _ _
  | cons c s =>
    rw [split]
    split
    · exact cons_ne_nil _ _
    · cases split sep s with
      | nil | cons part parts => exact cons_ne_nil _ _

theorem split_self {sep : Rune} {s : Runes} (h : sep ∉ s) : split sep s = [s] := by
  induction s with
  | nil => rfl
  | cons c s ih =>
    rw [mem_cons, not_or] at h
    rw [split, if_neg (Ne.symm h.1), ih h.2]
    rfl

theorem split_append {sep : Rune} {s : Runes} (hs : sep ∉ s) (t : Runes) :
    split sep (s ++ sep :: t) = s :: split sep t := by
  induction s with
  | nil => exact if_pos rfl
  | cons c s ih =>
    rw [mem_cons, not_or] at hs
    rw [cons_append, split, if_neg (Ne.symm hs.1), ih hs.2]
    rfl

end Runes

end Flotestro.Library
