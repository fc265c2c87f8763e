import Mathlib.Data.Vector.Basic
import Mathlib.Tactic.Ring

/-!
# Byte strings, little-endian numbers and readers

`putLE n v` is the number `v` in `n` bytes, least significant first, higher digits cut
off; `getLE` reads it back.  `readFull n` takes exactly `n` bytes from the front of what
is left, as a reader of a buffer or a file does, and `readFixed` takes them as a vector.
-/

set_option autoImplicit false

namespace Flotestro.Library

/-- The content of a buffer, a file or a string of the source language. -/
abbrev Bytes := List UInt8

def ascii (cs : List Char) : Bytes := cs.map fun c => UInt8.ofNat c.toNat

/-- `v` in `n` bytes, least significant first. -/
def putLE : Nat → Nat → Bytes
  | 0, _ => []
  | n + 1, v => UInt8.ofNat v :: putLE n (v / 256)

/-- The number a byte string writes, least significant byte first. -/
def getLE : Bytes → Nat
  | [] => 0
  | b :: bs => b.toNat + 256 * getLE bs

@[simp] theorem length_putLE (n v : Nat) : (putLE n v).length = n := by
  induction n generalizing v with
  | zero => rfl
  | succ n ih => simp [putLE, ih]

/-- Reading back a number gives it modulo the width it was written in. -/
@[simp] theorem getLE_putLE (n v : Nat) : getLE (putLE n v) = v % 256 ^ n := by
  induction n generalizing v with
  | zero => simp [putLE, getLE, Nat.mod_one]
  | succ n ih =>
    have hb : (UInt8.ofNat v).toNat = v % 256 := by simp
    rw [putLE, getLE, ih, hb, pow_succ, Nat.mul_comm (256 ^ n) 256, Nat.mod_mul]

/-- A number that fits its width is read back as it was written. -/
theorem getLE_putLE_of_lt {n v : Nat} (h : v < 256 ^ n) : getLE (putLE n v) = v := by
  rw [getLE_putLE, Nat.mod_eq_of_lt h]

/-- A number read from a byte string is written back as that string. -/
theorem putLE_getLE (bs : Bytes) : putLE bs.length (getLE bs) = bs := by
  induction bs with
  | nil => rfl
  | cons b bs ih =>
    have hlow : UInt8.ofNat (b.toNat + 256 * getLE bs) = b := by
      apply UInt8.toNat_inj.mp
      have := b.toNat_lt
      simp
    have hhigh : (b.toNat + 256 * getLE bs) / 256 = getLE bs := by
      have := b.toNat_lt
      omega
    rw [List.length_cons, getLE, putLE, hlow, hhigh, ih]

theorem getLE_lt (bs : Bytes) : getLE bs < 256 ^ bs.length := by
  induction bs with
  | nil => simp [getLE]
  | cons b bs ih =>
    have := b.toNat_lt
    rw [getLE, List.length_cons, pow_succ]
    omega

/-- Take exactly `n` bytes, or fail when fewer are left. -/
def readFull (n : Nat) (r : Bytes) : Option (Bytes × Bytes) :=
  if n ≤ r.length then some (r.take n, r.drop n) else none

/-- Take exactly `n` bytes as a vector, or fail when fewer are left. -/
def readFixed (n : Nat) (r : Bytes) : Option (List.Vector UInt8 n × Bytes) :=
  if h : n ≤ r.length then some (⟨r.take n, by simp [h]⟩, r.drop n) else none

/-- A read gives back a split of what it read from. -/
theorem readFull_eq_some_iff {n : Nat} {r a b : Bytes} :
    readFull n r = some (a, b) ↔ r = a ++ b ∧ a.length = n := by
  constructor
  · intro h
    by_cases hn : n ≤ r.length
    · simp only [readFull, hn, if_true, Option.some.injEq, Prod.mk.injEq] at h
      obtain ⟨rfl, rfl⟩ := h
      exact ⟨(List.take_append_drop n r).symm, by simp [hn]⟩
    · simp [readFull, hn] at h
  · rintro ⟨rfl, rfl⟩
    simp [readFull]

theorem readFull_append {n : Nat} {a : Bytes} (b : Bytes) (h : a.length = n) :
    readFull n (a ++ b) = some (a, b) := readFull_eq_some_iff.mpr ⟨rfl, h⟩

theorem readFull_of_lt {n : Nat} {r : Bytes} (h : r.length < n) : readFull n r = none := by
  simp [readFull, Nat.not_le.mpr h]

/-- A read of a vector gives back a split of what it read from. -/
theorem readFixed_eq_some_iff {n : Nat} {r b : Bytes} {a : List.Vector UInt8 n} :
    readFixed n r = some (a, b) ↔ r = a.toList ++ b := by
  constructor
  · intro h
    by_cases hn : n ≤ r.length
    · simp only [readFixed, hn, dite_true, Option.some.injEq] at h
      obtain ⟨rfl, rfl⟩ := h
      exact (List.take_append_drop n r).symm
    · simp [readFixed, hn] at h
  · rintro rfl
    obtain ⟨l, rfl⟩ := a
    simp [readFixed, List.Vector.toList]

theorem readFixed_append {n : Nat} (a : List.Vector UInt8 n) (b : Bytes) :
    readFixed n (a.toList ++ b) = some (a, b) := readFixed_eq_some_iff.mpr rfl

end Flotestro.Library
