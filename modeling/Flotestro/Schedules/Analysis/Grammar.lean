import Flotestro.Library.Runs
import Flotestro.Library.Tables
import Flotestro.Schedules.Model.Expression
import Mathlib.Data.Int.Interval

/-!
# The grammar of a field

A field is a comma list of items.  The parser reads items more loosely: with nothing before the step,
with numbers that have a sign, and with a single value where a single number has a step; a step beyond
64 bits it does not read.  The loose reading and the grammar agree on a field exactly when both refuse
some item of it, or both take all and the values that are missing behind single numbers come from other
items.
-/

set_option autoImplicit false

namespace Flotestro.Schedules

open Library List

variable {first last max min n step v : Int} {base part s t : Runes}

/-- A number without a sign. -/
def natural (s : Runes) : Option Int := (digits s).map Int.ofNat

/-- All values, one value or a range, with the first and the last value. -/
inductive Span (number : Runes → Option Int) (min max : Int) : Runes → Int → Int → Prop where
  | star : Span number min max (runes "*") min max
  | single {s : Runes} {n : Int} : .char '-' ∉ s → number s = some n → Span number min max s n n
  | range {s t : Runes} {n m : Int} : .char '-' ∉ s → number s = some n → number t = some m →
      Span number min max (s ++ .char '-' :: t) n m

/-- SOURCE: cron.go:109-111 -/
def Within (min max first last : Int) : Prop := min ≤ first ∧ first ≤ last ∧ last ≤ max

/-- An item of a field, with its first value, its last value and its step. -/
inductive Item (min max : Int) : Runes → Int × Int × Int → Prop where
  | plain {s : Runes} {first last : Int} : .char '/' ∉ s → Span natural min max s first last →
      Within min max first last → Item min max s (first, last, 1)
  | stepped {s t : Runes} {first last step : Int} : .char '/' ∉ s →
      Span natural min max s first last → Within min max first last → natural t = some step → 0 < step →
      Item min max (s ++ .char '/' :: t) (first, if natural s = none then last else max, step)

/-- All values, also where nothing stands, or a span of numbers as the machine reads them. -/
def Head (min max : Int) (s : Runes) (first last : Int) : Prop :=
  s = [] ∧ first = min ∧ last = max ∨ Span atoi min max s first last

/-- An item as the parser reads it. -/
inductive Loose (min max : Int) : Runes → Int × Int × Int → Prop where
  | plain {s : Runes} {first last : Int} : .char '/' ∉ s → Head min max s first last →
      Within min max first last → Loose min max s (first, last, 1)
  | stepped {s t : Runes} {first last step : Int} : .char '/' ∉ s → Head min max s first last →
      Within min max first last → atoi t = some step → 0 < step →
      Loose min max (s ++ .char '/' :: t) (first, last, step)

/-- The value is one of an item. -/
def Covers (i : Int × Int × Int) (v : Int) : Prop := i.1 ≤ v ∧ v ≤ i.2.1 ∧ i.2.2 ∣ v - i.1

/-- A field is a comma list of items, and the values are theirs. -/
def ListedBy (R : Runes → Int × Int × Int → Prop) (field : Runes) (values : Finset Int) : Prop :=
  (∀ part ∈ Runes.split (.char ',') field, ∃ i, R part i) ∧
    ∀ v, v ∈ values ↔ ∃ part ∈ Runes.split (.char ',') field, ∃ i, R part i ∧ Covers i v

/-- The fields of the grammar. -/
def Listed (min max : Int) : Runes → Finset Int → Prop := ListedBy (Item min max)

/-- Some item is outside the grammar and some item is not read, or all are items that are read, and
each value from a single number on in the steps behind it is read from some item. -/
def Agreed (min max : Int) (field : Runes) : Prop :=
  let parts := Runes.split (.char ',') field
  (∃ part ∈ parts, ∀ i, ¬Item min max part i) ∧ (∃ part ∈ parts, ∀ i, ¬Loose min max part i) ∨
    (∀ part ∈ parts, (∃ i, Item min max part i) ∧ ∃ i, Loose min max part i) ∧
      ∀ s t n step, s ++ .char '/' :: t ∈ parts → natural s = some n → natural t = some step →
        ∀ v, Covers (n, max, step) v → ∃ part ∈ parts, ∃ i, Loose min max part i ∧ Covers i v

theorem cut_append {sep : Rune} (h : sep ∉ s) : cut sep (s ++ sep :: t) = (s, some t) := by
  have hne : ∀ c ∈ s, decide (c ≠ sep) = true := by
    intro c hc
    exact decide_eq_true (ne_of_mem_of_not_mem hc h)
  rw [cut, takeWhile_append_of_pos hne, dropWhile_append_of_pos hne]
  simp

theorem parseStep_eq_ok_iff : parseStep part = .ok (step, base) ↔
    .char '/' ∉ part ∧ step = 1 ∧ base = part ∨ ∃ t, part = base ++ .char '/' :: t ∧
      .char '/' ∉ base ∧ atoi t = some step ∧ 0 < step := by
  constructor
  · intro h
    by_cases hmem : .char '/' ∈ part
    · obtain ⟨s, t, rfl, hs⟩ := eq_append_cons_of_mem hmem
      rw [parseStep, cut_append hs] at h
      dsimp only at h
      split at h
      · cases h
      next value hvalue =>
        obtain ⟨hpos, h⟩ := of_else h nofun
        cases h
        exact .inr ⟨t, rfl, hs, hvalue, by omega⟩
    · rw [parseStep, cut, if_neg hmem] at h
      cases h
      exact .inl ⟨hmem, rfl, rfl⟩
  · rintro (⟨hmem, rfl, rfl⟩ | ⟨t, rfl, hs, ht, hpos⟩)
    · rw [parseStep, cut, if_neg hmem]
    · rw [parseStep, cut_append hs]
      dsimp only
      rw [ht]
      exact if_neg (by omega)

theorem parseBounds_eq_ok_iff :
    parseBounds base min max = .ok (first, last) ↔ Head min max base first last := by
  unfold parseBounds
  constructor
  · intro h
    split at h
    next hall =>
      cases h
      rcases hall with rfl | rfl
      · exact .inr .star
      · exact .inl ⟨rfl, rfl, rfl⟩
    · by_cases hmem : .char '-' ∈ base
      · obtain ⟨s, t, rfl, hs⟩ := eq_append_cons_of_mem hmem
        simp only [cut_append hs] at h
        split at h
        next hfirst hlast =>
          cases h
          exact .inr (.range hs hfirst hlast)
        · cases h
      · simp only [cut, if_neg hmem] at h
        split at h
        next value hvalue =>
          cases h
          exact .inr (.single hmem hvalue)
        · cases h
  · rintro (⟨rfl, rfl, rfl⟩ | h)
    · exact if_pos (.inr rfl)
    cases h with
    | star => exact if_pos (.inl rfl)
    | single hs hn =>
      simp only [cut, if_neg hs]
      rw [if_neg, hn]
      rintro (rfl | rfl) <;> cases hn
    | range hs hn hm =>
      simp only [cut_append hs]
      rw [if_neg, hn, hm]
      rintro (h | h)
      · have hmem : Rune.char '-' ∈ runes "*" := by
          rw [← h]
          simp
        exact absurd hmem (by decide)
      · simp at h

/-- The step of a part, bounded by the range.  SOURCE: cron.go:112-116 -/
def clamp (min max step : Int) : Int := if step > max - min then max - min + 1 else step

/-- The bound on the step changes no value. -/
theorem stepped_clamp (hin : Within min max first last) :
    stepped first last (clamp min max step) = stepped first last step := by
  obtain ⟨hmin, hle, hmax⟩ := hin
  unfold clamp
  split
  · rw [stepped, stepped, Int.ediv_eq_zero_of_lt (by omega) (by omega),
      Int.ediv_eq_zero_of_lt (by omega) (by omega)]
    simp
  · rfl

theorem parsePart_eq_ok_iff {values : List Int} : parsePart min max part = .ok values ↔
    ∃ step base first last, parseStep part = .ok (step, base) ∧
      parseBounds base min max = .ok (first, last) ∧ Within min max first last ∧
      values = stepped first last step := by
  rw [parsePart]
  simp only [bind_eq_ok, Prod.exists]
  constructor
  · rintro ⟨step, base, hstep, first, last, hbounds, h⟩
    obtain ⟨hin, h⟩ := of_else h nofun
    cases h
    have hwithin : Within min max first last := ⟨by omega, by omega, by omega⟩
    exact ⟨step, base, first, last, hstep, hbounds, hwithin, stepped_clamp hwithin⟩
  · rintro ⟨step, base, first, last, hstep, hbounds, hin, rfl⟩
    refine ⟨step, base, hstep, first, last, hbounds, ?_⟩
    obtain ⟨hmin, hle, hmax⟩ := hin
    rw [if_neg (by omega)]
    exact congrArg Except.ok (stepped_clamp ⟨hmin, hle, hmax⟩)

theorem mem_stepped (hstep : 0 < step) :
    v ∈ stepped first last step ↔ first ≤ v ∧ v ≤ last ∧ step ∣ v - first := by
  have hmem : v ∈ stepped first last step ↔
      ∃ i < ((last - first) / step + 1).toNat, first + i * step = v := by
    simp [stepped]
  rw [hmem]
  constructor
  · rintro ⟨i, hi, rfl⟩
    have hle : (i : Int) ≤ (last - first) / step := by omega
    have hmul := (Int.le_ediv_iff_mul_le hstep).mp hle
    have hnonneg : 0 ≤ (i : Int) * step := Int.mul_nonneg (by omega) hstep.le
    exact ⟨by omega, by omega, by simp⟩
  · rintro ⟨hfirst, hlast, k, hk⟩
    have hk0 : 0 ≤ k := by
      by_contra hneg
      have := Int.mul_neg_of_pos_of_neg hstep (by omega : k < 0)
      omega
    have hle : k ≤ (last - first) / step := by
      rw [Int.le_ediv_iff_mul_le hstep, Int.mul_comm]
      omega
    refine ⟨k.toNat, by omega, ?_⟩
    rw [Int.toNat_of_nonneg hk0, Int.mul_comm]
    omega

theorem Item.spec {i : Int × Int × Int} (h : Item min max part i) :
    Within min max i.1 i.2.1 ∧ 0 < i.2.2 := by
  cases h with
  | plain _ _ hin => exact ⟨hin, Int.one_pos⟩
  | stepped _ _ hin _ hpos =>
    obtain ⟨hmin, hle, hmax⟩ := hin
    refine ⟨?_, hpos⟩
    split
    · exact ⟨hmin, hle, hmax⟩
    · exact ⟨hmin, hle.trans hmax, le_rfl⟩

theorem Loose.spec {i : Int × Int × Int} (h : Loose min max part i) :
    Within min max i.1 i.2.1 ∧ 0 < i.2.2 := by
  cases h with
  | plain _ _ hin => exact ⟨hin, Int.one_pos⟩
  | stepped _ _ hin _ hpos => exact ⟨hin, hpos⟩

/-- **What the parser reads of an item.** -/
theorem parsePart_eq_ok_iff_loose {values : List Int} : parsePart min max part = .ok values ↔
    ∃ i, Loose min max part i ∧ values = stepped i.1 i.2.1 i.2.2 := by
  rw [parsePart_eq_ok_iff]
  constructor
  · rintro ⟨step, base, first, last, hbase, hbounds, hin, rfl⟩
    have hhead := parseBounds_eq_ok_iff.mp hbounds
    rcases parseStep_eq_ok_iff.mp hbase with ⟨hs, rfl, rfl⟩ | ⟨t, rfl, hs, ht, hpos⟩
    · exact ⟨_, .plain hs hhead hin, rfl⟩
    · exact ⟨_, .stepped hs hhead hin ht hpos, rfl⟩
  · rintro ⟨i, hloose, rfl⟩
    cases hloose with
    | plain hs hhead hin =>
      exact ⟨1, part, _, _, parseStep_eq_ok_iff.mpr (.inl ⟨hs, rfl, rfl⟩),
        parseBounds_eq_ok_iff.mpr hhead, hin, rfl⟩
    | stepped hs hhead hin ht hpos =>
      exact ⟨_, _, _, _, parseStep_eq_ok_iff.mpr (.inr ⟨_, rfl, hs, ht, hpos⟩),
        parseBounds_eq_ok_iff.mpr hhead, hin, rfl⟩

/-! ## The two readings of an item -/

theorem natural_eq_none_of_mem {c : Rune} (hc : c ∈ s) (hdigit : digitValue c = none) :
    natural s = none := by
  have hfold : ∀ (s : Runes) (n : Nat), c ∈ s →
      s.foldlM (fun n c => (digitValue c).map fun d => 10 * n + d) n = none := by
    intro s
    induction s with
    | nil => intro n hc; cases hc
    | cons d s ih =>
      intro n hc
      rw [foldlM_cons]
      cases hd : digitValue d with
      | none => rfl
      | some k =>
        refine ih _ ((mem_cons.mp hc).resolve_left fun heq => ?_)
        rw [heq, hd] at hdigit
        cases hdigit
  rw [natural, digits, if_neg (ne_nil_of_mem hc), hfold s 0 hc]
  rfl

/-- The machine reads a number without a sign as it is, if it reads it. -/
theorem atoi_of_natural {m : Int} (hn : natural s = some n) (hm : atoi s = some m) : m = n := by
  have hsign : sign s = (false, s) := by
    cases s with
    | nil => rfl
    | cons c s =>
      have hne : ∀ d : Rune, digitValue d = none → c ≠ d := by
        rintro d hd rfl
        rw [natural_eq_none_of_mem mem_cons_self hd] at hn
        cases hn
      simp [sign, hne (.char '-') rfl, hne (.char '+') rfl]
  obtain ⟨k, hk, rfl⟩ := Option.map_eq_some_iff.mp hn
  rw [atoi, hsign, hk] at hm
  obtain ⟨-, hm⟩ := of_then hm nofun
  exact (Option.some.inj hm).symm

theorem append_cons_inj {sep : Rune} {s' t' : Runes} (hs : sep ∉ s) (hs' : sep ∉ s')
    (h : s ++ sep :: t = s' ++ sep :: t') : s = s' ∧ t = t' := by
  have hcut := congrArg (cut sep) h
  rw [cut_append hs, cut_append hs', Prod.mk.injEq, Option.some.injEq] at hcut
  exact hcut

theorem span_atoi_of_natural {first' last' : Int} (h : Span natural min max s first last)
    (h' : Span atoi min max s first' last') : first' = first ∧ last' = last := by
  cases h with
  | star =>
    generalize hs : runes "*" = s at h'
    cases h' with
    | star => exact ⟨rfl, rfl⟩
    | single _ hn =>
      subst hs
      cases hn
    | @range u t =>
      have hmem : Rune.char '-' ∈ runes "*" := by
        rw [hs]
        simp
      exact absurd hmem (by decide)
  | single hs hn =>
    cases h' with
    | star => cases hn
    | single _ hm =>
      have heq := atoi_of_natural hn hm
      exact ⟨heq, heq⟩
    | range => simp at hs
  | @range u t _ _ hu hn hm =>
    generalize hs : u ++ .char '-' :: t = s at h'
    cases h' with
    | star =>
      have hmem : Rune.char '-' ∈ runes "*" := by
        rw [← hs]
        simp
      exact absurd hmem (by decide)
    | single hs' => exact absurd (by rw [← hs]; simp) hs'
    | range hu' hn' hm' =>
      obtain ⟨rfl, rfl⟩ := append_cons_inj hu hu' hs
      exact ⟨atoi_of_natural hn hn', atoi_of_natural hm hm'⟩

theorem head_of_span {first' last' : Int} (h : Span natural min max s first last)
    (h' : Head min max s first' last') : first' = first ∧ last' = last := by
  rcases h' with ⟨rfl, -⟩ | h'
  · generalize hs : ([] : Runes) = s at h
    cases h with
    | star => cases hs
    | single _ hn =>
      subst hs
      cases hn
    | range => simp at hs
  · exact span_atoi_of_natural h h'

/-- A span whose text is a number is that number. -/
theorem span_of_natural (h : Span natural min max s first last) (hn : natural s = some n) :
    first = n ∧ last = n := by
  cases h with
  | star => cases hn
  | single _ hm =>
    obtain rfl := Option.mem_unique hm hn
    exact ⟨rfl, rfl⟩
  | range =>
    rw [natural_eq_none_of_mem (c := .char '-') (by simp) rfl] at hn
    cases hn

/-- **The two readings of an item** differ behind a single number only, which has one value for the
parser and all up to the end of the range in the grammar. -/
theorem item_loose {i j : Int × Int × Int} (hi : Item min max part i) (hj : Loose min max part j) :
    j = i ∨ ∃ s t n step, part = s ++ .char '/' :: t ∧ natural s = some n ∧ natural t = some step ∧
      i = (n, max, step) ∧ j = (n, n, step) := by
  cases hi with
  | plain hs hspan hin =>
    cases hj with
    | plain _ hhead _ =>
      obtain ⟨rfl, rfl⟩ := head_of_span hspan hhead
      exact .inl rfl
    | stepped => simp at hs
  | @stepped s t first last step hs hspan hin ht hpos =>
    generalize hpart : s ++ .char '/' :: t = p at hj
    cases hj with
    | plain hs' => exact absurd (by rw [← hpart]; simp) hs'
    | stepped hs' hhead _ ht' _ =>
      obtain ⟨rfl, rfl⟩ := append_cons_inj hs hs' hpart
      obtain ⟨rfl, rfl⟩ := head_of_span hspan hhead
      obtain rfl := atoi_of_natural ht ht'
      cases hn : natural s with
      | none => exact .inl (by rw [if_pos rfl])
      | some n =>
        obtain ⟨rfl, rfl⟩ := span_of_natural hspan hn
        exact .inr ⟨s, t, _, _, rfl, hn, ht, by rw [if_neg nofun], rfl⟩

/-- The item of a single number with a step. -/
theorem item_of_natural {i : Int × Int × Int} (hi : Item min max (s ++ .char '/' :: t) i)
    (hs : natural s = some n) (ht : natural t = some step) : i = (n, max, step) := by
  have hslash : .char '/' ∉ s := fun hmem => by
    rw [natural_eq_none_of_mem hmem rfl] at hs
    cases hs
  generalize hpart : s ++ .char '/' :: t = p at hi
  cases hi with
  | plain hs' => exact absurd (by rw [← hpart]; simp) hs'
  | stepped hs' hspan _ ht' _ =>
    obtain ⟨rfl, rfl⟩ := append_cons_inj hslash hs' hpart
    obtain ⟨rfl, -⟩ := span_of_natural hspan hs
    obtain rfl := Option.mem_unique ht' ht
    rw [hs, if_neg nofun]

/-! ## Fields -/

section

variable {field : Runes} {R : Runes → Int × Int × Int → Prop}

theorem mapM_eq_ok_iff {α β ε : Type} {f : α → Except ε β} {l : List α} {r : List β} :
    l.mapM f = .ok r ↔ Forall₂ (fun x y => f x = .ok y) l r := by
  induction l generalizing r with
  | nil =>
    rw [forall₂_nil_left_iff]
    exact ⟨fun h => by cases h; rfl, fun h => by rw [h]; rfl⟩
  | cons x l ih =>
    simp only [mapM_cons, bind_eq_ok, forall₂_cons_left_iff, ih]
    constructor
    · rintro ⟨y, hy, ys, hys, h⟩
      cases h
      exact ⟨y, ys, hy, hys, rfl⟩
    · rintro ⟨y, ys, hy, hys, rfl⟩
      exact ⟨y, hy, ys, hys, rfl⟩

theorem exists_mapM_ok {α β ε : Type} {f : α → Except ε β} {l : List α}
    (h : ∀ x ∈ l, ∃ y, f x = .ok y) : ∃ r, l.mapM f = .ok r := by
  induction l with
  | nil => exact ⟨[], rfl⟩
  | cons x l ih =>
    obtain ⟨⟨y, hy⟩, hl⟩ := forall_mem_cons.mp h
    obtain ⟨ys, hys⟩ := ih hl
    exact ⟨y :: ys, by rw [mapM_cons, hy, hys]; rfl⟩

/-- **What the parser reads of a field.** -/
theorem parseField_eq_ok_iff {values : Finset Int} :
    parseField field min max = .ok values ↔ ListedBy (Loose min max) field values := by
  have hvalues : ∀ lists, (Runes.split (.char ',') field).mapM (parsePart min max) = .ok lists →
      ∀ v, v ∈ lists.flatten ↔
        ∃ part ∈ Runes.split (.char ',') field, ∃ i, Loose min max part i ∧ Covers i v := by
    intro lists hlists v
    have hall := mapM_eq_ok_iff.mp hlists
    constructor
    · intro hv
      obtain ⟨l, hl, hv⟩ := mem_flatten.mp hv
      obtain ⟨part, hpart, hok⟩ := exists_of_mem_forall₂ hall hl
      obtain ⟨i, hi, rfl⟩ := parsePart_eq_ok_iff_loose.mp hok
      exact ⟨part, hpart, i, hi, (mem_stepped hi.spec.2).mp hv⟩
    · rintro ⟨part, hpart, i, hi, hv⟩
      obtain ⟨l, hl, hok⟩ := exists_of_mem_forall₂ hall.flip hpart
      rw [parsePart_eq_ok_iff_loose.mpr ⟨i, hi, rfl⟩] at hok
      cases hok
      exact mem_flatten.mpr ⟨_, hl, (mem_stepped hi.spec.2).mpr hv⟩
  constructor
  · intro h
    obtain ⟨lists, hlists, h⟩ := bind_eq_ok.mp h
    obtain ⟨-, h⟩ := of_else h nofun
    cases h
    refine ⟨fun part hpart => ?_, fun v => ?_⟩
    · obtain ⟨l, -, hok⟩ := exists_of_mem_forall₂ (mapM_eq_ok_iff.mp hlists).flip hpart
      exact (parsePart_eq_ok_iff_loose.mp hok).imp fun i hi => hi.1
    · rw [mem_toFinset]
      exact hvalues lists hlists v
  · rintro ⟨hread, hlisted⟩
    obtain ⟨lists, hlists⟩ := exists_mapM_ok fun part hpart => by
      obtain ⟨i, hi⟩ := hread part hpart
      exact ⟨_, parsePart_eq_ok_iff_loose.mpr ⟨i, hi, rfl⟩⟩
    obtain ⟨part, hpart⟩ := exists_mem_of_ne_nil _ (Runes.split_ne_nil (.char ',') field)
    obtain ⟨i, hi⟩ := hread part hpart
    have hsome : i.1 ∈ lists.flatten :=
      (hvalues lists hlists i.1).mpr ⟨part, hpart, i, hi, le_rfl, hi.spec.1.2.1, by simp⟩
    rw [parseField, hlists]
    refine (if_neg (ne_nil_of_mem hsome)).trans (congrArg Except.ok ?_)
    ext v
    rw [hlisted, mem_toFinset]
    exact hvalues lists hlists v

/-- A field all of whose items are read has its values. -/
theorem exists_listedBy (hR : ∀ part i, R part i → Within min max i.1 i.2.1 ∧ 0 < i.2.2)
    (hall : ∀ part ∈ Runes.split (.char ',') field, ∃ i, R part i) : ∃ values, ListedBy R field values := by
  classical
  refine ⟨(Finset.Icc min max).filter fun v =>
    ∃ part ∈ Runes.split (.char ',') field, ∃ i, R part i ∧ Covers i v, hall, fun v => ?_⟩
  rw [Finset.mem_filter, Finset.mem_Icc]
  refine ⟨fun h => h.2, fun h => ⟨?_, h⟩⟩
  obtain ⟨part, -, i, hi, hfirst, hlast, -⟩ := h
  obtain ⟨⟨hmin, -, hmax⟩, -⟩ := hR part i hi
  exact ⟨hmin.trans hfirst, hlast.trans hmax⟩

/-- The two readings of a field all of whose items both take. -/
theorem Agreed.listed_iff (hboth : ∀ part ∈ Runes.split (.char ',') field,
      (∃ i, Item min max part i) ∧ ∃ i, Loose min max part i)
    (hrest : ∀ s t n step, s ++ .char '/' :: t ∈ Runes.split (.char ',') field → natural s = some n →
      natural t = some step → ∀ v, Covers (n, max, step) v →
        ∃ part ∈ Runes.split (.char ',') field, ∃ i, Loose min max part i ∧ Covers i v) (v : Int) :
    (∃ part ∈ Runes.split (.char ',') field, ∃ i, Loose min max part i ∧ Covers i v) ↔
      ∃ part ∈ Runes.split (.char ',') field, ∃ i, Item min max part i ∧ Covers i v := by
  constructor
  · rintro ⟨part, hpart, j, hj, hv⟩
    obtain ⟨i, hi⟩ := (hboth part hpart).1
    refine ⟨part, hpart, i, hi, ?_⟩
    rcases item_loose hi hj with rfl | ⟨s, t, n, step, -, -, -, rfl, rfl⟩
    · exact hv
    · exact ⟨hv.1, hv.2.1.trans hi.spec.1.2.1, hv.2.2⟩
  · rintro ⟨part, hpart, i, hi, hv⟩
    obtain ⟨j, hj⟩ := (hboth part hpart).2
    rcases item_loose hi hj with rfl | ⟨s, t, n, step, rfl, hs, ht, rfl, -⟩
    · exact ⟨part, hpart, j, hj, hv⟩
    · exact hrest s t n step hpart hs ht v hv

/-- **When a field is read by its grammar**: exactly when some item is outside the grammar and some item
is not read, or all are items that are read and the values behind single numbers with a step come from
other items; and no value is ever outside the range. -/
theorem parseField_grammar_iff (field : Runes) (min max : Int) :
    ((∀ values, parseField field min max = .ok values ↔ Listed min max field values) ↔
      Agreed min max field) ∧
    ∀ values, parseField field min max = .ok values → ∀ v ∈ values, min ≤ v ∧ v ≤ max := by
  refine ⟨?_, fun values hok v hv => ?_⟩
  · simp only [parseField_eq_ok_iff]
    constructor
    · intro h
      by_cases hloose : ∀ part ∈ Runes.split (.char ',') field, ∃ i, Loose min max part i
      · obtain ⟨values, hvalues⟩ := exists_listedBy (fun _ _ => Loose.spec) hloose
        obtain ⟨hitems, hlisted⟩ := (h values).mp hvalues
        refine .inr ⟨fun part hpart => ⟨hitems part hpart, hloose part hpart⟩, ?_⟩
        intro s t n step hpart hs ht v hv
        rw [← hvalues.2, hlisted]
        obtain ⟨i, hi⟩ := hitems _ hpart
        obtain rfl := item_of_natural hi hs ht
        exact ⟨_, hpart, _, hi, hv⟩
      · refine .inl ⟨?_, by simpa only [not_forall, not_exists, exists_prop] using hloose⟩
        by_contra hnone
        have hitems : ∀ part ∈ Runes.split (.char ',') field, ∃ i, Item min max part i := by
          simpa only [not_exists, not_and, not_forall, not_not] using hnone
        obtain ⟨values, hvalues⟩ := exists_listedBy (fun _ _ => Item.spec) hitems
        exact hloose ((h values).mpr hvalues).1
    · rintro (⟨⟨part, hpart, hitem⟩, other, hother, hloose⟩ | ⟨hboth, hrest⟩) values
      · refine ⟨fun h => ?_, fun h => ?_⟩
        · obtain ⟨i, hi⟩ := h.1 other hother
          exact absurd hi (hloose i)
        · obtain ⟨i, hi⟩ := h.1 part hpart
          exact absurd hi (hitem i)
      · refine and_congr ⟨fun _ part hpart => (hboth part hpart).1,
          fun _ part hpart => (hboth part hpart).2⟩ (forall_congr' fun v => ?_)
        rw [Agreed.listed_iff hboth hrest v]
  · obtain ⟨part, -, i, hi, hfirst, hlast, -⟩ := ((parseField_eq_ok_iff.mp hok).2 v).mp hv
    obtain ⟨⟨hmin, -, hmax⟩, -⟩ := hi.spec
    exact ⟨hmin.trans hfirst, hlast.trans hmax⟩

/-- Nothing at all is read as all values, a sign is skipped, and a step behind a single value is
dropped. -/
theorem parseField_beyond : parseField [] 0 7 = .ok {0, 1, 2, 3, 4, 5, 6, 7} ∧
    (¬∃ i, Item 0 7 [] i) ∧ parseField (runes "+5") 0 7 = .ok {5} ∧
    parseField (runes "5/2") 0 7 = .ok {5} := by
  refine ⟨rfl, ?_, rfl, rfl⟩
  rintro ⟨i, hitem⟩
  generalize hs : ([] : Runes) = s at hitem
  cases hitem with
  | plain _ hspan =>
    cases hspan with
    | star => cases hs
    | single _ hn => subst hs; cases hn
    | range => simp at hs
  | stepped => simp at hs

end

end Flotestro.Schedules
