import Flotestro.Jcs.Model.Canonical
import Mathlib.Tactic.Positivity
import Mathlib.Tactic.FieldSimp

/-!
# Numbers

A number that is printed is read back as one that denotes exactly its digits times the power of ten,
in each of the four layouts.
-/

set_option autoImplicit false

namespace Flotestro.Jcs

open Library List

theorem digitChar_spec : ∀ d < 10, isDigitChar (digitChar d) = true ∧ digitOf (digitChar d) = d := by
  decide

theorem digitChar_ne : ∀ d < 10, digitChar d ≠ '-' ∧ digitChar d ≠ '.' ∧ digitChar d ≠ 'e' ∧
    digitChar d ≠ 'E' ∧ (d ≠ 0 → digitChar d ≠ '0') := by
  decide

def StopsDigits (rest : Chars) : Prop := ∀ c, rest.head? = some c → isDigitChar c = false

theorem spanDigits_digitsText {ds : List Nat} {rest : Chars} (hds : ∀ d ∈ ds, d < 10)
    (hrest : StopsDigits rest) : spanDigits (digitsText ds ++ rest) = (ds, rest) := by
  have hall : ∀ c ∈ digitsText ds, isDigitChar c = true := by
    intro c hc
    obtain ⟨d, hd, rfl⟩ := mem_map.mp hc
    exact (digitChar_spec d (hds d hd)).1
  have hend : rest.takeWhile isDigitChar = [] ∧ rest.dropWhile isDigitChar = rest := by
    cases rest with
    | nil => exact ⟨rfl, rfl⟩
    | cons c rest =>
      have hc := hrest c rfl
      exact ⟨takeWhile_cons_of_neg (by simp [hc]), dropWhile_cons_of_neg (by simp [hc])⟩
  have hback : (digitsText ds).map digitOf = ds := by
    rw [digitsText, map_map]
    conv_rhs => rw [← map_id ds]
    apply map_congr_left
    intro d hd
    exact (digitChar_spec d (hds d hd)).2
  unfold spanDigits
  rw [takeWhile_append_of_pos hall, dropWhile_append_of_pos hall, hend.1, hend.2,
    append_nil, hback]

theorem digitsValue_append (a b : List Nat) :
    digitsValue (a ++ b) = digitsValue a * 10 ^ b.length + digitsValue b := by
  unfold digitsValue
  rw [reverse_append, Nat.ofDigits_append, length_reverse]
  ring

theorem digitsValue_replicate (n : Nat) : digitsValue (replicate n 0) = 0 := by
  unfold digitsValue
  rw [reverse_replicate]
  induction n with
  | zero => rfl
  | succ n ih => rw [replicate_succ, Nat.ofDigits_cons, ih]

theorem digitsValue_decimalDigits (n : Nat) : digitsValue (decimalDigits n) = n := by
  unfold decimalDigits digitsValue
  split
  next h => rw [h]; rfl
  · rw [reverse_reverse, Nat.ofDigits_digits]

theorem decimalDigits_ne (n : Nat) : decimalDigits n ≠ [] := by
  unfold decimalDigits
  split
  · simp
  next h => exact fun hnil => h (Nat.digits_eq_nil_iff_eq_zero.mp (reverse_eq_nil_iff.mp hnil))

theorem decimalDigits_lt (n : Nat) : ∀ d ∈ decimalDigits n, d < 10 := by
  unfold decimalDigits
  split
  · simp
  · intro d hd
    exact Nat.digits_lt_base (by decide) (mem_reverse.mp hd)

/-! ## The parts of a number -/

/-- Nothing behind a number goes on with it. -/
def EndsNumber (rest : Chars) : Prop :=
  ∀ c, rest.head? = some c → isDigitChar c = false ∧ c ≠ '.' ∧ c ≠ 'e' ∧ c ≠ 'E'

section

variable {ds : List Nat} {rest : Chars}

theorem EndsNumber.stops (h : EndsNumber rest) : StopsDigits rest := fun c hc => (h c hc).1

theorem EndsNumber.point (h : EndsNumber rest) : rest.head? ≠ some '.' :=
  fun hc => (h _ hc).2.1 rfl

theorem readInt_zero (rest : Chars) : readInt ('0' :: rest) = some ([0], rest) := by
  unfold readInt
  dsimp only
  rw [if_pos rfl]

theorem readInt_digits (hne : ds ≠ []) (hds : ∀ d ∈ ds, d < 10) (hfirst : ds.head? ≠ some 0)
    (hrest : StopsDigits rest) : readInt (digitsText ds ++ rest) = some (ds, rest) := by
  have hspan := spanDigits_digitsText hds hrest
  cases ds with
  | nil => exact absurd rfl hne
  | cons d ds =>
    have hd := hds d mem_cons_self
    have hzero : digitChar d ≠ '0' := (digitChar_ne d hd).2.2.2.2 fun h => hfirst (by rw [h]; rfl)
    change (if digitChar d = '0' then _ else if isDigitChar (digitChar d) = true then
      some (spanDigits (digitsText (d :: ds) ++ rest)) else none) = _
    rw [if_neg hzero, if_pos (digitChar_spec d hd).1, hspan]

theorem readFrac_point (hne : ds ≠ []) (hds : ∀ d ∈ ds, d < 10) (hrest : StopsDigits rest) :
    readFrac ('.' :: (digitsText ds ++ rest)) = some (ds, rest) := by
  unfold readFrac
  rw [head?_cons, tail_cons, spanDigits_digitsText hds hrest]
  exact if_neg hne

theorem readFrac_none (h : rest.head? ≠ some '.') : readFrac rest = some ([], rest) := if_neg h

theorem readExp_none (h : EndsNumber rest) : readExp rest = some (0, rest) := by
  refine if_neg ?_
  rintro (hc | hc)
  · exact (h _ hc).2.2.1 rfl
  · exact (h _ hc).2.2.2 rfl

theorem readExp_exponentText (n : Int) (h : StopsDigits rest) :
    readExp (exponentText n ++ rest) = some (n - 1, rest) := by
  have hspan := spanDigits_digitsText (decimalDigits_lt (n - 1).natAbs) h
  unfold readExp exponentText
  rw [cons_append, if_pos (.inl rfl), cons_append]
  by_cases hneg : n - 1 < 0
  · rw [if_pos hneg]
    simp only [readSign, head?_cons, if_true, tail_cons, hspan, decimalDigits_ne, if_false,
      digitsValue_decimalDigits]
    congr 2
    omega
  · rw [if_neg hneg]
    simp only [readSign, head?_cons, tail_cons, hspan, decimalDigits_ne, if_false, if_true,
      digitsValue_decimalDigits, Option.some.injEq, Char.reduceEq, Bool.false_eq_true]
    congr 2
    omega

theorem readUnsigned_of {neg : Bool} {int frac : List Nat} {exp : Int} {s s₁ s₂ : Chars}
    (hint : readInt s = some (int, s₁)) (hfrac : readFrac s₁ = some (frac, s₂))
    (hexp : readExp s₂ = some (exp, rest)) :
    readUnsigned neg s = some (⟨neg, int, frac, exp⟩, rest) := by
  simp [readUnsigned, hint, hfrac, hexp]

end

/-! ## The layouts -/

section

variable (d : Shortest)

/-- A number that is read with these parts denotes the digits times the power of ten. -/
def Denotes (p : Parts) : Prop := p.value = (if p.neg then -1 else 1) * d.value

variable {d}

theorem denotes_of {neg : Bool} {int frac : List Nat} {exp : Int} {n : Nat}
    (hdigits : digitsValue (int ++ frac) = digitsValue d.digits * 10 ^ n)
    (hexp : (n : Int) + (exp - frac.length) = d.exp + 1 - d.digits.length) :
    Denotes d ⟨neg, int, frac, exp⟩ := by
  unfold Denotes Parts.value Shortest.value
  rw [hdigits, ← hexp, zpow_add₀ (by norm_num), zpow_natCast]
  push_cast
  ring

theorem digitsText_append (as bs : List Nat) :
    digitsText (as ++ bs) = digitsText as ++ digitsText bs := map_append

/-- The digits behind the point, where there are any. -/
def pointText (frac : List Nat) : Chars := if frac = [] then [] else '.' :: digitsText frac

/-- What all layouts have in common: digits, digits behind a point and an exponent, the last two not
always written. -/
structure Laid (d : Shortest) (int frac : List Nat) (exp : Int) (tail : Chars) : Prop where
  text : layout d = digitsText int ++ (pointText frac ++ tail)
  int_ne : int ≠ []
  digits_lt : ∀ a ∈ int ++ frac, a < 10
  first : int = [0] ∨ int.head? ≠ some 0
  tail : tail = [] ∧ exp = 0 ∨ tail = exponentText (exp + 1)
  value : ∃ n : Nat, digitsValue (int ++ frac) = digitsValue d.digits * 10 ^ n ∧
    (n : Int) + (exp - frac.length) = d.exp + 1 - d.digits.length

/-- The digits before and behind a point that stands among them. -/
theorem laid_split {n : Nat} (hn : 0 < n) (hlen : n < d.digits.length) {exp : Int} {tail : Chars}
    (htext : layout d = digitsText (d.digits.take n) ++ '.' :: digitsText (d.digits.drop n) ++ tail)
    (htail : tail = [] ∧ exp = 0 ∨ tail = exponentText (exp + 1)) (hexp : exp + n = d.exp + 1) :
    Laid d (d.digits.take n) (d.digits.drop n) exp tail where
  text := by
    rw [htext, pointText, if_neg (by simpa using hlen), append_assoc]
  int_ne := by simpa [hn.ne'] using d.digits_ne
  digits_lt := by simpa using d.digits_lt
  first := .inr (by simpa [head?_take, hn.ne'] using d.first_ne)
  tail := htail
  value := ⟨0, by simp, by rw [length_drop]; omega⟩

theorem exists_laid (d : Shortest) : ∃ int frac exp tail, Laid d int frac exp tail := by
  have hpos : 0 < d.digits.length := length_pos_of_ne_nil d.digits_ne
  have hlayout := layout.eq_1 d
  split_ifs at hlayout with h h' h'' hone
  · -- all digits stand before the point, with zeros behind them
    refine ⟨d.digits ++ replicate (d.exp + 1 - d.digits.length).toNat 0, [], 0, [], ?_⟩
    constructor
    · rw [hlayout, zeros, digitsText_append]
      simp [pointText]
    · simp [d.digits_ne]
    · simpa [or_imp, forall_and] using d.digits_lt
    · exact .inr (by simpa [head?_append_of_ne_nil _ d.digits_ne] using d.first_ne)
    · exact .inl ⟨rfl, rfl⟩
    · refine ⟨(d.exp + 1 - d.digits.length).toNat, ?_, ?_⟩
      · rw [append_nil, digitsValue_append, digitsValue_replicate, length_replicate]
        rfl
      · simp only [length_nil]
        omega
  · exact ⟨_, _, 0, [], laid_split (n := (d.exp + 1).toNat) (by omega) (by omega)
      (by simpa using hlayout) (.inl ⟨rfl, rfl⟩) (by omega)⟩
  · -- zeros stand between the point and the digits
    refine ⟨[0], replicate (-(d.exp + 1)).toNat 0 ++ d.digits, 0, [], ?_⟩
    constructor
    · rw [hlayout, zeros]
      simp [pointText, d.digits_ne, digitsText, digitChar]
    · simp
    · simpa [or_imp, forall_and] using d.digits_lt
    · exact .inl rfl
    · exact .inl ⟨rfl, rfl⟩
    · refine ⟨0, ?_, ?_⟩
      · rw [← append_assoc, digitsValue_append,
          show [0] ++ replicate (-(d.exp + 1)).toNat 0 =
            replicate ((-(d.exp + 1)).toNat + 1) 0 by simp [replicate_succ], digitsValue_replicate]
        simp
      · rw [length_append, length_replicate]
        omega
  · -- one digit and an exponent
    refine ⟨d.digits, [], d.exp, _, by simpa [pointText] using hlayout, d.digits_ne, ?_, .inr d.first_ne,
      .inr rfl, 0, ?_, ?_⟩
    · simpa using d.digits_lt
    · simp
    · simp only [length_nil]
      omega
  · exact ⟨_, _, d.exp, _, laid_split Nat.one_pos (by omega) hlayout (.inr rfl) rfl⟩

/-- **A number is read as it was laid out.** -/
theorem readUnsigned_layout (d : Shortest) (neg : Bool) :
    ∃ p, (∀ rest, EndsNumber rest → readUnsigned neg (layout d ++ rest) = some (p, rest)) ∧
      p.neg = neg ∧ Denotes d p := by
  obtain ⟨int, frac, exp, tail, h⟩ := exists_laid d
  obtain ⟨hint, hfrac⟩ := forall_mem_append.mp h.digits_lt
  obtain ⟨n, hdigits, hexp⟩ := h.value
  refine ⟨⟨neg, int, frac, exp⟩, fun rest hrest => ?_, rfl, denotes_of hdigits hexp⟩
  have htail : StopsDigits (tail ++ rest) ∧ (tail ++ rest).head? ≠ some '.' ∧
      readExp (tail ++ rest) = some (exp, rest) := by
    rcases h.tail with ⟨rfl, rfl⟩ | rfl
    · exact ⟨hrest.stops, hrest.point, readExp_none hrest⟩
    · refine ⟨fun c hc => ?_, fun hc => absurd (Option.some.inj hc) (by decide), ?_⟩
      · obtain rfl : 'e' = c := Option.some.inj hc
        decide
      · rw [readExp_exponentText _ hrest.stops, add_sub_cancel_right]
  have hpoint : StopsDigits (pointText frac ++ (tail ++ rest)) ∧
      readFrac (pointText frac ++ (tail ++ rest)) = some (frac, tail ++ rest) := by
    unfold pointText
    split
    next hnil => exact ⟨htail.1, by rw [hnil]; exact readFrac_none htail.2.1⟩
    next hne =>
      refine ⟨fun c hc => ?_, readFrac_point hne hfrac htail.1⟩
      cases hc
      decide
  rw [h.text, append_assoc, append_assoc]
  refine readUnsigned_of ?_ hpoint.2 htail.2.2
  rcases h.first with rfl | hfirst
  · exact readInt_zero _
  · exact readInt_digits h.int_ne hint hfirst hpoint.1

theorem layout_head (d : Shortest) : ∃ a s, layout d = digitChar a :: s ∧ a < 10 := by
  obtain ⟨int, frac, exp, tail, h⟩ := exists_laid d
  obtain ⟨a, as, rfl⟩ := exists_cons_of_ne_nil h.int_ne
  exact ⟨a, _, h.text, h.digits_lt a (by simp)⟩

end

/-- What a number of a text begins with. -/
def StartsNumber (c : Char) : Prop := c = '-' ∨ ∃ a < 10, c = digitChar a

theorem formatNumber_head (shape : Shape) : ∃ c s, formatNumber shape = c :: s ∧ StartsNumber c := by
  cases shape with
  | zero => exact ⟨'0', [], rfl, .inr ⟨0, by decide, rfl⟩⟩
  | nonzero neg d =>
    cases neg with
    | true => exact ⟨'-', layout d, rfl, .inl rfl⟩
    | false =>
      obtain ⟨a, s, hs, ha⟩ := layout_head d
      exact ⟨digitChar a, s, hs, .inr ⟨a, ha, rfl⟩⟩

/-- **A number is read back** as parts that denote what the digits do, whatever ends it. -/
theorem readNumber_formatNumber (shape : Shape) :
    ∃ p, (∀ rest, EndsNumber rest → readNumber (formatNumber shape ++ rest) = some (p, rest)) ∧
      p.value = shape.value := by
  cases shape with
  | zero =>
    refine ⟨⟨false, [0], [], 0⟩, fun rest hrest => ?_, ?_⟩
    · exact readUnsigned_of (readInt_zero _) (readFrac_none hrest.point) (readExp_none hrest)
    · simp [Parts.value, Shape.value, digitsValue]
  | nonzero neg d =>
    obtain ⟨p, hp, hneg, hval⟩ := readUnsigned_layout d neg
    refine ⟨p, fun rest hrest => ?_, ?_⟩
    · cases neg with
      | true => exact hp rest hrest
      | false =>
        obtain ⟨a, s, hs, ha⟩ := layout_head d
        have hminus : readMinus (layout d ++ rest) = (false, layout d ++ rest) := by
          rw [hs]
          exact if_neg fun h => (digitChar_ne a ha).1 (Option.some.inj h)
        show readUnsigned (readMinus (layout d ++ rest)).1 (readMinus (layout d ++ rest)).2 = _
        rw [hminus]
        exact hp rest hrest
    · rw [hval, hneg]
      rfl

end Flotestro.Jcs
