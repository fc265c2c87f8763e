import Flotestro.Versions.Model.Deb
import Mathlib.Order.Compare

/-!
# The order of Debian versions

The cursors of `compareDebPart` stay in step: both stand in a fragment or neither does.  So it
compares two lists of keys, each of one string alone, lexicographically, and inherits the laws of
that order.
-/

set_option autoImplicit false

namespace Flotestro.Versions

open Library

variable {a b : Bytes} {i j n : Nat}

/-- The order of a character, and the digits of the number that begins with it. -/
structure DebKey where
  order : Int
  digits : Bytes

instance : Ord DebKey where
  compare := compareLex (compareOn (·.order))
    (compareLex (compareOn (·.digits.length)) (compareOn (·.digits)))

instance : Std.TransOrd DebKey := inferInstanceAs (Std.TransCmp (compareLex _ _))

/-- The first `n` keys of a string from a cursor on; behind its end there are empty numbers. -/
def debKeys (a : Bytes) : Nat → Nat → List DebKey
  | 0, _ => []
  | n + 1, i =>
    if inFragment a i then ⟨charAt a i, []⟩ :: debKeys a n (i + 1)
    else
      let start := scan (· = 48) a i
      let stop := scan isDigit a start
      ⟨charAt a i, (slice a start stop).getD []⟩ :: debKeys a n stop

def keysCmp (n : Nat) (a b : Bytes) (i j : Nat) : Ordering :=
  compare (debKeys a n i) (debKeys b n j)

theorem inFragment_iff (a : Bytes) (i : Nat) : inFragment a i = true ↔ charAt a i ≠ 0 := by
  have hzero : ∀ n < 256, debOrder (UInt8.ofNat n) = 0 ↔ isDigit (UInt8.ofNat n) = true := by
    decide +kernel
  unfold inFragment charAt
  cases a[i]? with
  | none => simp
  | some c =>
    have := hzero c.toNat c.toNat_lt
    simp_all

theorem debKeys_end (h : a.length ≤ i) (n : Nat) : debKeys a n i = List.replicate n ⟨0, []⟩ := by
  have hscan : ∀ p, scan p a i = i := by simp [scan, List.drop_of_length_le h]
  have hslice : (slice a i i).getD [] = [] := by
    unfold slice
    split <;> simp
  induction n with
  | zero => rfl
  | succ n ih => simp [debKeys, inFragment, charAt, hscan, hslice, ih, List.replicate, h]

theorem keysCmp_ne (h : charAt a i ≠ charAt b j) :
    keysCmp (n + 1) a b i j = compare (charAt a i) (charAt b j) := by
  have hne : compare (charAt a i) (charAt b j) ≠ .eq := fun heq => h (compare_eq_iff_eq.mp heq)
  have hkeys : ∀ (a : Bytes) i, ∃ w rest, debKeys a (n + 1) i = ⟨charAt a i, w⟩ :: rest := by
    intro a i
    rw [debKeys]
    split <;> exact ⟨_, _, rfl⟩
  obtain ⟨w, rest, ha⟩ := hkeys a i
  obtain ⟨w', rest', hb⟩ := hkeys b j
  simp only [keysCmp, ha, hb, List.compare_cons_cons]
  simp only [compare, compareLex, compareOn] at hne ⊢
  generalize compareOfLessAndEq (charAt a i) (charAt b j) = o at hne ⊢
  cases o <;> simp_all

/-- A fragment is walked over on both sides: to its first difference, or to two numbers. -/
theorem fragment_spec (hi : i ≤ a.length) (hj : j ≤ b.length) :
    ∃ k, i + k ≤ a.length ∧ j + k ≤ b.length ∧
      (∀ n, keysCmp (n + k) a b i j = keysCmp n a b (i + k) (j + k)) ∧
      (fragment a b i j = .inl (compare (charAt a (i + k)) (charAt b (j + k))) ∧
          charAt a (i + k) ≠ charAt b (j + k) ∨
        fragment a b i j = .inr (i + k, j + k) ∧
          inFragment a (i + k) = false ∧ inFragment b (j + k) = false) := by
  induction i, j using fragment.induct a b with
  | case1 i j hin hne =>
    refine ⟨0, hi, hj, fun _ => rfl, .inl ⟨?_, hne⟩⟩
    rw [fragment, dif_pos hin, if_pos hne]
    rfl
  | case2 i j hin heq ih =>
    have hchar : charAt a i = charAt b j := not_not.mp heq
    have hboth : inFragment a i = true ∧ inFragment b j = true := by
      simpa [inFragment_iff, hchar] using hin
    obtain ⟨k, hi', hj', hkeys, hf⟩ := ih (inFragment_lt hboth.1) (inFragment_lt hboth.2)
    rw [fragment, dif_pos hin, if_neg heq]
    rw [Nat.add_right_comm] at hi' hj'
    simp only [Nat.add_right_comm _ 1] at hkeys hf
    refine ⟨k + 1, hi', hj', fun n => ?_, hf⟩
    rw [← Nat.add_assoc, ← Nat.add_assoc, ← Nat.add_assoc, ← hkeys]
    simp [keysCmp, debKeys, hboth, hchar]
  | case3 i j hout =>
    refine ⟨0, hi, hj, fun _ => rfl, .inr ⟨?_, by simpa using hout⟩⟩
    rw [fragment, dif_neg hout]
    rfl

theorem scan_bounds (p : UInt8 → Bool) (hi : i ≤ a.length) :
    i ≤ scan p a i ∧ scan p a i ≤ a.length := by
  have := (List.takeWhile_prefix p (l := a.drop i)).length_le
  rw [List.length_drop] at this
  unfold scan
  omega

/-- A number is cut out of its string, and is not empty where bytes are left. -/
theorem number_spec (hi : i ≤ a.length) (hout : inFragment a i = false) :
    let start := scan (· = 48) a i
    let stop := scan isDigit a start
    (∃ digits, slice a start stop = some digits) ∧ stop ≤ a.length ∧ i ≤ stop ∧
      (i < a.length → i < stop) := by
  obtain ⟨hge, hle⟩ := scan_bounds (· = 48) hi
  obtain ⟨hge', hle'⟩ := scan_bounds isDigit hle
  refine ⟨⟨_, if_pos ⟨hge', hle'⟩⟩, hle', hge.trans hge', fun hlt => ?_⟩
  rcases Nat.lt_or_eq_of_le hge with h | h
  · omega
  · have hdigit : isDigit a[i] = true := by simpa [inFragment, hlt] using hout
    rw [← h, scan, List.drop_eq_getElem_cons hlt, List.takeWhile_cons_of_pos hdigit]
    simp

theorem compareFrom_eq {fuel : Nat} (hi : i ≤ a.length) (hj : j ≤ b.length)
    (hfuel : a.length - i + (b.length - j) < fuel) (hn : a.length - i + (b.length - j) ≤ n) :
    compareFrom a b fuel i j = some (keysCmp n a b i j) := by
  induction fuel generalizing i j n with
  | zero => omega
  | succ fuel ih =>
    rw [compareFrom]
    split
    next hmore =>
      obtain ⟨k, hi', hj', hkeys, ⟨hf, hne⟩ | ⟨hf, hout, hout'⟩⟩ := fragment_spec hi hj
      · have hpos : i + k < a.length ∨ j + k < b.length := by
          by_contra hnot
          exact hne (by simp [charAt, show a.length ≤ i + k by omega, show b.length ≤ j + k by omega])
        obtain ⟨m, rfl⟩ : ∃ m, n = m + 1 + k := ⟨n - 1 - k, by omega⟩
        rw [hf, hkeys, keysCmp_ne hne]
      · obtain ⟨⟨digits, hslice⟩, hstop, hge, hgt⟩ := number_spec hi' hout
        obtain ⟨⟨digits', hslice'⟩, hstop', hge', hgt'⟩ := number_spec hj' hout'
        obtain ⟨m, rfl⟩ : ∃ m, n = m + 1 + k := ⟨n - 1 - k, by omega⟩
        have hzero : charAt a (i + k) = 0 ∧ charAt b (j + k) = 0 := by
          simpa [← Bool.not_eq_true, inFragment_iff] using And.intro hout hout'
        simp only [hf, hslice, ih hstop hstop' (n := m) (by omega) (by omega)]
        have hnumbers : compare (⟨0, digits⟩ : DebKey) ⟨0, digits'⟩ =
          (compare digits.length digits'.length).then (compare digits digits') := rfl
        rw [hkeys, keysCmp, keysCmp]
        simp [debKeys, hout, hout', hslice, hslice', hzero, hnumbers]
        cases (compare digits.length digits'.length).then (compare digits digits') <;> rfl
    next hend =>
      rw [keysCmp, debKeys_end (by omega), debKeys_end (by omega), Std.compare_self]

/-- The order of versions by the keys of their parts. -/
def debCmp (n : Nat) : Bytes → Bytes → Ordering :=
  compareLex (compareOn fun v => (splitDeb v).1)
    (compareLex (compareOn fun v => debKeys (splitDeb v).2.1 n 0)
      (compareOn fun v => debKeys (splitDeb v).2.2 n 0))

instance : Std.TransCmp (debCmp n) := inferInstanceAs (Std.TransCmp (compareLex _ _))

def partsLength (v : Bytes) : Nat := (splitDeb v).2.1.length + (splitDeb v).2.2.length

theorem compareDeb_eq (ha : partsLength a ≤ n) (hb : partsLength b ≤ n) :
    compareDeb a b = some (debCmp (n + n) a b) := by
  unfold partsLength at ha hb
  have hpart : ∀ a b : Bytes, a.length ≤ n → b.length ≤ n →
      compareDebPart a b = some (keysCmp (n + n) a b 0 0) :=
    fun a b ha hb => compareFrom_eq (Nat.zero_le _) (Nat.zero_le _) (by omega) (by omega)
  have hupstream := hpart (splitDeb a).2.1 (splitDeb b).2.1 (by omega) (by omega)
  have hrevision := hpart (splitDeb a).2.2 (splitDeb b).2.2 (by omega) (by omega)
  simp only [compareDeb, hupstream, hrevision, debCmp, keysCmp, compareLex, compareOn]
  cases compare (splitDeb a).1 (splitDeb b).1 <;>
    cases compare (debKeys (splitDeb a).2.1 (n + n) 0) (debKeys (splitDeb b).2.1 (n + n) 0) <;> rfl

/-- **Debian versions are totally preordered**, and no comparison of them panics. -/
theorem compareDeb_preorder (a b c : Bytes) :
    compareDeb a a = some .eq ∧ (compareDeb a b).isSome = true ∧
      compareDeb b a = (compareDeb a b).map Ordering.swap ∧
      ((compareDeb a b).any Ordering.isLE = true → (compareDeb b c).any Ordering.isLE = true →
        (compareDeb a c).any Ordering.isLE = true) := by
  obtain ⟨n, ha, hb, hc⟩ : ∃ n, partsLength a ≤ n ∧ partsLength b ≤ n ∧ partsLength c ≤ n :=
    ⟨partsLength a + partsLength b + partsLength c, by omega, by omega, by omega⟩
  rw [compareDeb_eq ha ha, compareDeb_eq ha hb, compareDeb_eq hb ha, compareDeb_eq hb hc,
    compareDeb_eq ha hc]
  refine ⟨congrArg some Std.ReflCmp.compare_self, rfl, congrArg some Std.OrientedCmp.eq_swap, ?_⟩
  exact Std.TransCmp.isLE_trans

end Flotestro.Versions
