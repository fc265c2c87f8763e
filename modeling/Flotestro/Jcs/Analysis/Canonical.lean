import Flotestro.Jcs.Analysis.Values

/-!
# The canonical form

Two values with distinct names are written alike exactly when they are equal up to the order of
members.  A written value is its own canonical form, as far down as the decoder goes: it refuses
arrays and objects nested deeper than its bound.
-/

set_option autoImplicit false

namespace Flotestro.Jcs

open Library List

section

variable {F : Type} (strconv : Strconv F)

/-- A double as it is printed. -/
def formatDouble (f : F) : Chars := formatNumber (strconv.shape f)

theorem canonical_eq (v : Json F) : canonical strconv v = some (written (formatDouble strconv) v) :=
  write_eq v

/-- Doubles are printed as parts that are read as the same double. -/
theorem exists_parts : ∃ parts : F → Parts, (∀ f, PrintedAs (formatDouble strconv f) (parts f)) ∧
    ∀ f, strconv.parse (parts f) = some f := by
  have hone : ∀ f, ∃ p, PrintedAs (formatDouble strconv f) p ∧ strconv.parse p = some f := by
    intro f
    obtain ⟨p, hread, hvalue⟩ := readNumber_formatNumber (strconv.shape f)
    exact ⟨p, ⟨formatNumber_head _, hread⟩, strconv.parse_of_value f p hvalue⟩
  choose parts hparts using hone
  exact ⟨parts, fun f => (hparts f).1, fun f => (hparts f).2⟩

theorem arrange_eq_of_canonical_eq {v w : Json F} (hv : v.Distinct) (hw : w.Distinct)
    (h : canonical strconv v = canonical strconv w) : arrange v = arrange w := by
  obtain ⟨parts, hprinted, hparse⟩ := exists_parts strconv
  have hinj : Function.Injective parts := fun f g hfg =>
    Option.some.inj ((hparse f).symm.trans ((congrArg strconv.parse hfg).trans (hparse g)))
  -- a decoder that goes deep enough for both reads one text
  have hdv := decode_of_reads
    (reads_written hprinted v hv (max v.depth w.depth) (le_max_left _ _))
  have hdw := decode_of_reads
    (reads_written hprinted w hw (max v.depth w.depth) (le_max_right _ _))
  have htext : written (formatDouble strconv) v = written (formatDouble strconv) w := by
    rw [canonical_eq, canonical_eq] at h
    exact Option.some.inj h
  rw [htext, hdw] at hdv
  exact (Json.mapNum_injective hinj (Option.some.inj hdv)).symm

theorem same_of_canonical_eq {v w : Json F} (hv : v.Distinct) (hw : w.Distinct)
    (h : canonical strconv v = canonical strconv w) : v.Same w := by
  have hsame := same_arrange v
  rw [arrange_eq_of_canonical_eq strconv hv hw h] at hsame
  exact hsame.trans (same_arrange w).symm

theorem canonical_of_same {v w : Json F} (hv : v.Distinct) (h : v.Same w) :
    canonical strconv v = canonical strconv w := by
  rw [canonical_eq, canonical_eq, written_of_same h hv]

/-- What was written is its own canonical form, as deep as the decoder goes. -/
theorem transform_canonical {v : Json F} (hv : v.Distinct) (hdepth : v.depth ≤ maxNestingDepth) :
    (canonical strconv v).bind (transform strconv) = canonical strconv v := by
  obtain ⟨parts, hprinted, hparse⟩ := exists_parts strconv
  have hdecode := decode_of_reads (reads_written hprinted v hv maxNestingDepth hdepth)
  have hnumbers : (fun f => numberText strconv (parts f)) =
      fun f => some (formatNumber (strconv.shape f)) := by
    funext f
    rw [numberText, hparse]
    rfl
  have harranged := canonical_of_same strconv hv (same_arrange v)
  rw [canonical_eq strconv v, Option.bind_some, transform, hdecode, Option.bind_some, write_mapNum,
    hnumbers]
  exact harranged.symm.trans (canonical_eq strconv v)

theorem bytes_injective : Function.Injective bytes := by
  intro s t h
  exact String.ofList_injective (String.toByteArray_inj.mp h)

theorem canonical_obj {members : List (Chars × Json F)} (h : (members.map Prod.fst).Nodup) :
    ∃ ms : List (Chars × Chars), canonical strconv (.obj members) =
        some ('{' :: (joinTexts (ms.map fun m => writeString m.1 ++ ':' :: m.2) ++ ['}'])) ∧
      (ms.map Prod.fst).Perm (members.map Prod.fst) ∧
      ms.Pairwise fun m m' => utf16 m.1 < utf16 m'.1 := by
  let texts := members.map fun m => (m.1, written (formatDouble strconv) m.2)
  have hnames : texts.map Prod.fst = members.map Prod.fst := map_map
  refine ⟨sortMembers texts, ?_, ?_, sortMembers_lt (by rw [hnames]; exact h)⟩
  · rw [canonical, write, writeMembers_eq fun m _ => write_eq m.2]
    rfl
  · rw [← hnames]
    exact (sortMembers_perm texts).map Prod.fst

end

def nested {ν : Type} : Nat → Json ν
  | 0 => .null
  | k + 1 => .arr [nested k]

theorem nested_distinct {ν : Type} (k : Nat) : (nested k : Json ν).Distinct := by
  induction k with
  | zero => trivial
  | succ k ih => exact ⟨ih, trivial⟩

theorem written_nested {ν : Type} {fmt : ν → Chars} (k : Nat) :
    ∃ s, written fmt (nested k) = replicate k '[' ++ s := by
  induction k with
  | zero => exact ⟨_, rfl⟩
  | succ k ih =>
    obtain ⟨s, hs⟩ := ih
    refine ⟨s ++ [']'], ?_⟩
    rw [nested, written_arr, replicate_succ, cons_append, ← append_assoc, ← hs]
    rfl

/-- The decoder gives up at the bracket that goes beyond its bound. -/
theorem decodeValue_deep (levels n : Nat) (s : Chars) :
    decodeValue n levels (replicate (levels + 1) '[' ++ s) = none := by
  induction levels generalizing n with
  | zero =>
    cases n with
    | zero | succ n => rfl
  | succ levels ih =>
    cases n with
    | zero => rfl
    | succ n =>
      have hitems : decodeItems n levels (replicate (levels + 1) '[' ++ s) = none := by
        cases n with
        | zero => rfl
        | succ n =>
          rw [decodeItems, ih n]
          rfl
      rw [replicate_succ, cons_append, decodeValue, skip_cons (by decide)]
      have hhead : (skip (replicate (levels + 1) '[' ++ s)).head? ≠ some ']' := by
        exact fun h => absurd (Option.some.inj h) (by decide)
      dsimp only
      rw [if_pos rfl, hitems]
      rfl

theorem transform_nested {F : Type} (strconv : Strconv F) :
    (canonical strconv (nested (maxNestingDepth + 1))).bind (transform strconv) = none := by
  obtain ⟨s, hs⟩ : ∃ s, written (formatDouble strconv) (nested (maxNestingDepth + 1)) =
    replicate (maxNestingDepth + 1) '[' ++ s := written_nested _
  rw [canonical_eq, hs, Option.bind_some, transform, decode, decodeValue_deep]
  rfl

/-- **Canonical JSON is canonical.**  Two values with distinct names are written as the same
bytes if and only if they are equal up to the order of members; a string is read back from its escaped
form; members come out in the order of UTF-16 code units; a number denotes its digits times the power
of ten; and what was written is its own canonical form, down to the depth the decoder goes. -/
theorem canonical_is_canonical {F : Type} (strconv : Strconv F) :
    (∀ v w : Json F, v.Distinct → w.Distinct →
      ((canonical strconv v).map bytes = (canonical strconv w).map bytes ↔ v.Same w)) ∧
    (∀ v : Json F, (canonical strconv v).isSome) ∧
    (∀ (s : Chars) (levels : Nat), decode levels (writeString s) = some (.str s)) ∧
    (∀ members : List (Chars × Json F), (members.map Prod.fst).Nodup →
      ∃ ms : List (Chars × Chars), canonical strconv (.obj members) =
          some ('{' :: (joinTexts (ms.map fun m => writeString m.1 ++ ':' :: m.2) ++ ['}'])) ∧
        (ms.map Prod.fst).Perm (members.map Prod.fst) ∧
        ms.Pairwise fun m m' => utf16 m.1 < utf16 m'.1) ∧
    (∀ shape : Shape, ∃ p, readNumber (formatNumber shape) = some (p, []) ∧ p.value = shape.value) ∧
    ∀ v : Json F, v.Distinct → v.depth ≤ maxNestingDepth →
      (canonical strconv v).bind (transform strconv) = canonical strconv v := by
  refine ⟨fun v w hv hw => ⟨fun h => ?_, fun h => ?_⟩, fun v => ?_, fun s levels => ?_,
    fun members h => canonical_obj strconv h, fun shape => ?_,
    fun v hv hdepth => transform_canonical strconv hv hdepth⟩
  · exact same_of_canonical_eq strconv hv hw (Option.map_injective bytes_injective h)
  · rw [canonical_of_same strconv hv h]
  · rw [canonical_eq]
    rfl
  · exact decode_of_reads (reads_str s levels)
  · obtain ⟨p, hread, hvalue⟩ := readNumber_formatNumber shape
    have := hread [] fun c hc => absurd hc (by simp)
    rw [append_nil] at this
    exact ⟨p, this, hvalue⟩

def zeroOne : Strconv Bool where
  shape b := if b then .nonzero false ⟨[1], 0, by decide, by decide, by decide⟩ else .zero
  parse p := if p.value = 0 then some false else if p.value = 1 then some true else none
  parse_of_value := by
    intro b p hp
    cases b with
    | false => exact if_pos hp
    | true =>
      have hone : p.value = 1 := by
        rw [hp]
        norm_num [Shape.value, Shortest.value, digitsValue]
      rw [if_neg (by rw [hone]; decide), if_pos hone]

theorem canonical_is_canonical_small :
    (canonical zeroOne (.obj [(['b'], .num true), (['a'], .arr [])])).map bytes =
      (canonical zeroOne (.obj [(['a'], .arr []), (['b'], .num true)])).map bytes ∧
    (canonical zeroOne (.arr [.num true])).bind (transform zeroOne) =
      canonical zeroOne (.arr [.num true]) := by
  obtain ⟨hsame, -, -, -, -, htransform⟩ := canonical_is_canonical zeroOne
  refine ⟨(hsame _ _ ?_ ?_).mpr (.perm (Perm.swap _ _ _)), htransform _ ?_ ?_⟩
  · exact ⟨by decide, trivial, trivial, trivial⟩
  · exact ⟨by decide, trivial, trivial, trivial⟩
  · exact ⟨trivial, trivial⟩
  · exact show 1 ≤ 10000 by decide

/-- One level deeper than the decoder goes, a written value has no canonical form. -/
theorem too_deep_to_transform : ∃ v : Json Bool, v.Distinct ∧ (canonical zeroOne v).isSome ∧
    (canonical zeroOne v).bind (transform zeroOne) = none :=
  ⟨nested (maxNestingDepth + 1), nested_distinct _, by rw [canonical_eq]; rfl,
    transform_nested zeroOne⟩

end Flotestro.Jcs
