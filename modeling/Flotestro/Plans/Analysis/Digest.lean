import Flotestro.Plans.Analysis.Trees
import Mathlib.Data.Nat.Digits.Lemmas

/-!
# The digest of a plan

The digest of an envelope is equal to that of another exactly when both describe the same change, and
a plan passes the check before it is carried out only with the digest that was approved.
-/

set_option autoImplicit false

namespace Flotestro.Plans

open Library Flotestro.Jcs List

theorem value_intParts (n : Int) : (intParts n).value = n := by
  have hdigits : (digitsValue (decimalDigits n.natAbs ++ []) : ℚ) = n.natAbs := by
    rw [append_nil, digitsValue_decimalDigits]
  unfold Parts.value intParts
  simp only [hdigits, length_nil]
  by_cases hn : n < 0
  · rw [if_pos (decide_eq_true hn)]
    have habs : (n.natAbs : Int) = -n := by omega
    have hcast : (n.natAbs : ℚ) = -(n : ℚ) := by rw [← Int.cast_natCast, habs, Int.cast_neg]
    rw [hcast]
    ring
  · rw [if_neg (by simpa using hn)]
    have habs : (n.natAbs : Int) = n := by omega
    have hcast : (n.natAbs : ℚ) = (n : ℚ) := by rw [← Int.cast_natCast, habs]
    rw [hcast]
    ring

section

variable {F : Type} (host : Host F)

theorem exists_double : ∃ double : Int → F, ∀ n : Int, n.natAbs < 2 ^ 53 →
    (host.shape (double n)).value = n := by
  obtain ⟨zero, -⟩ := host.exact 0 (by decide)
  choose double hdouble using host.exact
  refine ⟨fun n => if hn : n.natAbs < 2 ^ 53 then double n hn else zero, fun n hn => ?_⟩
  dsimp only
  rw [dif_pos hn]
  exact hdouble n hn

variable {host} {double : Int → F}
  (hdouble : ∀ n : Int, n.natAbs < 2 ^ 53 → (host.shape (double n)).value = n)

include hdouble

theorem double_inj (n m : Int) (hn : n.natAbs < 2 ^ 53) (hm : m.natAbs < 2 ^ 53)
    (h : double n = double m) : n = m := by
  have hvalue := hdouble n hn
  rw [h, hdouble m hm] at hvalue
  exact_mod_cast hvalue.symm

theorem numberText_int (n : Int) (hn : n.natAbs < 2 ^ 53) : numberText host.toStrconv (intParts n) =
      some (formatNumber (host.shape (double n))) := by
  have hparse := host.parse_of_value (double n) (intParts n)
    ((value_intParts n).trans (hdouble n hn).symm)
  rw [numberText, hparse]
  rfl

/-- The canonical JSON of an envelope is that of a value over doubles. -/
theorem normalizeRFC8785_eq {e : Envelope} (he : e.effects.Counted) :
    e.normalizeRFC8785 host = canonical host.toStrconv (e.tree double host.stamp) := by
  have hdownload : (e.effects.downloadBytes.toNat : Int).natAbs < 2 ^ 53 := by
    exact he.1
  have hwrite := write_mapNum id (fun n => numberText host.toStrconv (intParts n))
    (e.tree id host.stamp)
  have hcanonical := write_mapNum id
    (fun f => some (formatNumber (host.shape f))) (e.tree double host.stamp)
  rw [Envelope.mapNum_tree] at hwrite hcanonical
  have hsame : e.tree (fun n => numberText host.toStrconv (intParts (id n))) host.stamp =
      e.tree (fun n => some (formatNumber (host.shape (double n)))) host.stamp :=
    e.tree_congr (numberText_int hdouble _ (natAbs_toNat_lt _))
      (numberText_int hdouble _ hdownload) (numberText_int hdouble _ he.2)
  rw [hsame] at hwrite
  exact hwrite.symm.trans hcanonical

omit hdouble in
theorem hash_eq {e : Envelope} {t : Chars} (h : e.hashed.normalizeRFC8785 host = some t) :
    e.hash host = host.sum256 (utf8 t) := by
  rw [Envelope.hash, h]

omit hdouble in
/-- **The digest tells the hashed envelope.** -/
theorem hash_eq_iff {a b : Envelope} (ha : a.effects.Counted) (hb : b.effects.Counted) :
    a.hash host = b.hash host ↔ a.hashed = b.hashed := by
  constructor
  · intro h
    obtain ⟨double, hdouble⟩ := exists_double host
    have hA : a.hashed.normalizeRFC8785 host = _ := normalizeRFC8785_eq hdouble ha
    have hB : b.hashed.normalizeRFC8785 host = _ := normalizeRFC8785_eq hdouble hb
    have hwrittenA := canonical_eq host.toStrconv (a.hashed.tree double host.stamp)
    have hwrittenB := canonical_eq host.toStrconv (b.hashed.tree double host.stamp)
    rw [hash_eq (hA.trans hwrittenA), hash_eq (hB.trans hwrittenB)] at h
    have htext := utf8_injective (host.sum256_injective h)
    have harrange := arrange_eq_of_canonical_eq host.toStrconv a.hashed.distinct_tree
      b.hashed.distinct_tree (by rw [hwrittenA, hwrittenB, htext])
    exact Envelope.tree_inj ha hb rfl (double_inj hdouble) harrange
  · intro h
    rw [Envelope.hash, Envelope.hash, h]

end

/-- Two envelopes describe the same change: equal fields, and lists with the same elements,
each as many times.  The description, the host, the inventory revision and the expiry do not count,
and a list that is nil is an empty one. -/
structure SameChange (a b : Envelope) : Prop where
  schemaVersion : a.schemaVersion = b.schemaVersion
  plannerVersion : a.plannerVersion = b.plannerVersion
  actionType : a.actionType = b.actionType
  resourceRevision : a.resourceRevision = b.resourceRevision
  preconditions : (a.preconditions.getD []).Perm (b.preconditions.getD [])
  steps : (a.steps.getD []).Perm (b.steps.getD [])
  artifacts : (a.artifacts.getD []).Perm (b.artifacts.getD [])
  expected : (a.effects.expected.getD []).Perm (b.effects.expected.getD [])
  servicesRestart : (a.effects.servicesRestart.getD []).Perm (b.effects.servicesRestart.getD [])
  rebootRequired : a.effects.rebootRequired = b.effects.rebootRequired
  servicesRestartKnown : a.effects.servicesRestartKnown = b.effects.servicesRestartKnown
  downloadBytes : a.effects.downloadBytes = b.effects.downloadBytes
  downloadKnown : a.effects.downloadKnown = b.effects.downloadKnown
  installDeltaBytes : a.effects.installDeltaBytes = b.effects.installDeltaBytes
  installDeltaKnown : a.effects.installDeltaKnown = b.effects.installDeltaKnown
  rollback : a.rollback = b.rollback

/-- The hashed envelope holds the change and nothing else. -/
theorem hashed_eq_iff (a b : Envelope) : a.hashed = b.hashed ↔ SameChange a b := by
  simp only [Envelope.hashed, Envelope.normalized, normalized_list, Envelope.mk.injEq,
    Effects.mk.injEq, Option.some.injEq, lessPrecondition, lessStep, lessArtifact, lessEffect,
    lessText_eq_lessBy, sortBy_eq_iff separates_precondition, sortBy_eq_iff separates_step,
    sortBy_eq_iff separates_artifact, sortBy_eq_iff separates_effect, sortBy_eq_iff separates_text,
    true_and, and_true]
  constructor
  · rintro ⟨h1, h2, h3, h4, h5, h6, ⟨h7, h8, h9, h10, h11, h12, h13, h14⟩, h15, h16⟩
    exact ⟨h1, h2, h3, h4, h5, h6, h15, h7, h9, h8, h10, h11, h12, h13, h14, h16⟩
  · intro h
    exact ⟨h.schemaVersion, h.plannerVersion, h.actionType, h.resourceRevision, h.preconditions,
      h.steps, ⟨h.expected, h.rebootRequired, h.servicesRestart, h.servicesRestartKnown,
        h.downloadBytes, h.downloadKnown, h.installDeltaBytes, h.installDeltaKnown⟩, h.artifacts,
      h.rollback⟩

/-! ## The check before the change -/

theorem map_lowerByte_hexEncode (bs : Bytes) : (hexEncode bs).map lowerByte = hexEncode bs := by
  have hdigit : ∀ d : Fin 16, lowerByte (Library.hexDigit d) = Library.hexDigit d := by decide
  conv_rhs => rw [← map_id (hexEncode bs)]
  apply map_congr_left
  intro b hb
  obtain ⟨d, rfl⟩ := eq_hexDigit hb
  exact hdigit d

theorem equalFold_hexEncode_iff (a b : Bytes) :
    equalFold (hexEncode a) (hexEncode b) = true ↔ a = b := by
  rw [equalFold, decide_eq_true_iff, map_lowerByte_hexEncode, map_lowerByte_hexEncode]
  exact hexEncode_injective.eq_iff

section

variable {F : Type} {host : Host F}

theorem verify_ok {e : Envelope} {expected : Reference} {now : Time}
    (h : e.verify host expected now = .ok ()) :
    (expected.schemaVersion = 0 ∨ expected.schemaVersion = e.schemaVersion) ∧
    (expected.plannerVersion = [] ∨ expected.plannerVersion = e.plannerVersion) ∧
    (expected.expiresAt = 0 ∨ now ≤ expected.expiresAt) ∧
    expected.hash ≠ [] ∧ e.hash host = expected.hash := by
  obtain ⟨hschema, h⟩ := of_else h nofun
  obtain ⟨hplanner, h⟩ := of_else h nofun
  obtain ⟨hexpiry, h⟩ := of_else h nofun
  obtain ⟨hempty, h⟩ := of_else h nofun
  obtain ⟨hstale, h⟩ := of_else h nofun
  rw [Bool.not_eq_false, Envelope.hashHex, equalFold_hexEncode_iff] at hstale
  refine ⟨?_, ?_, ?_, ?_, hstale.symm⟩
  · by_contra hne
    exact hschema (not_or.mp hne)
  · by_contra hne
    exact hplanner (not_or.mp hne)
  · by_contra hne
    exact hexpiry ⟨(not_or.mp hne).1, not_le.mp (not_or.mp hne).2⟩
  · intro hnil
    exact hempty (by rw [hnil]; rfl)

end

/-- **The digest of a plan is consent to exactly one change.**  Envelopes have one digest if
and only if they describe the same change; and the check lets an envelope through only with the digest
that was approved, of the schema and of the planner that the reference names, and not after the expiry
it names: so it describes the change whose digest was approved. -/
theorem digest_is_consent {F : Type} (host : Host F) :
    (∀ a b : Envelope, a.effects.Counted → b.effects.Counted →
      (a.hash host = b.hash host ↔ SameChange a b)) ∧
    (∀ (e : Envelope) (expected : Reference) (now : Time), e.verify host expected now = .ok () →
      (expected.schemaVersion = 0 ∨ expected.schemaVersion = e.schemaVersion) ∧
      (expected.plannerVersion = [] ∨ expected.plannerVersion = e.plannerVersion) ∧
      (expected.expiresAt = 0 ∨ now ≤ expected.expiresAt) ∧
      expected.hash ≠ [] ∧ e.hash host = expected.hash) ∧
    ∀ (e approved : Envelope) (expected : Reference) (now : Time),
      e.effects.Counted → approved.effects.Counted → approved.hash host = expected.hash →
      e.verify host expected now = .ok () → SameChange e approved := by
  refine ⟨fun a b ha hb => (hash_eq_iff ha hb).trans (hashed_eq_iff a b),
    fun e expected now h => verify_ok h, fun e approved expected now he hap hhash h => ?_⟩
  obtain ⟨-, -, -, -, hdigest⟩ := verify_ok h
  exact (hashed_eq_iff e approved).mp ((hash_eq_iff he hap).mp (hdigest.trans hhash.symm))

/-! ## A small plan -/

theorem decimalDigits_head {n : Nat} (hn : n ≠ 0) : (decimalDigits n).head? ≠ some 0 := by
  unfold decimalDigits
  rw [if_neg hn, head?_reverse]
  intro h
  have hne : Nat.digits 10 n ≠ [] := Nat.digits_ne_nil_iff_ne_zero.mpr hn
  rw [getLast?_eq_some_getLast hne] at h
  exact Nat.getLast_digit_ne_zero 10 hn (Option.some.inj h)

/-- An integer with all its digits. -/
def intShape (n : Int) : Shape :=
  if h : n = 0 then .zero
  else .nonzero (n < 0) ⟨decimalDigits n.natAbs, (decimalDigits n.natAbs).length - 1,
    decimalDigits_ne _, decimalDigits_lt _, decimalDigits_head (Int.natAbs_ne_zero.mpr h)⟩

theorem value_intShape (n : Int) : (intShape n).value = n := by
  unfold intShape
  split
  next h =>
    rw [h]
    rfl
  next h =>
    have hparts := value_intParts n
    unfold Parts.value intParts at hparts
    unfold Shape.value Shortest.value
    simpa using hparts

/-- A host whose numbers are the integers, and whose digest is the text. -/
def integers : Host Int where
  shape := intShape
  parse p := if p.value.den = 1 then some p.value.num else none
  parse_of_value := by
    intro n p hp
    rw [hp, value_intShape]
    exact if_pos rfl
  exact n _ := ⟨n, value_intShape n⟩
  stamp _ := "0001-01-01T00:00:00Z".toList
  sum256 := id
  sum256_injective := Function.injective_id

/-- A plan that does nothing. -/
def emptyPlan : Envelope where
  schemaVersion := 1
  plannerVersion := []
  actionType := []
  hostID := []
  inventoryRevision := []
  resourceRevision := []
  preconditions := none
  steps := none
  effects := ⟨none, false, none, false, 0, false, 0, false⟩
  artifacts := none
  rollback := ⟨[], [], false, []⟩
  expiresAt := 0
  description := []

theorem emptyPlan_counted : emptyPlan.effects.Counted := by
  constructor
  · decide
  · decide

theorem utf8_cons_ne_nil (c : Char) (s : Chars) : utf8 (c :: s) ≠ [] := by
  intro h
  have hnil : utf8 [] = [] := rfl
  exact cons_ne_nil c s (utf8_injective (h.trans hnil.symm))

theorem hash_integers_ne_nil {e : Envelope} (he : e.effects.Counted) : e.hash integers ≠ [] := by
  obtain ⟨double, hdouble⟩ := exists_double integers
  have htext : e.hashed.normalizeRFC8785 integers = _ := normalizeRFC8785_eq hdouble he
  have hsum : ∀ bs, integers.sum256 bs = bs := fun _ => rfl
  rw [hash_eq (htext.trans (canonical_eq _ _)), hsum, Envelope.tree, written_obj]
  exact utf8_cons_ne_nil _ _

/-- An envelope passes with its own digest, where nothing else is asked. -/
theorem verify_own_digest {e : Envelope} (he : e.effects.Counted) (now : Time) :
    e.verify integers ⟨e.hash integers, 0, [], 0⟩ now = .ok () := by
  have hne : (e.hash integers).length ≠ 0 := fun h =>
    hash_integers_ne_nil he (length_eq_zero_iff.mp h)
  have hfold : equalFold (hexEncode (e.hash integers)) (e.hashHex integers) = true :=
    (equalFold_hexEncode_iff _ _).mpr rfl
  unfold Envelope.verify
  rw [if_neg (by simp), if_neg (by simp), if_neg (by simp), if_neg hne,
    if_neg (by rw [hfold]; simp)]

/-- Two steps in either order, described in another way, under one approved digest. -/
theorem digest_is_consent_small :
    let a : Envelope := { emptyPlan with steps := some [⟨['s'], [], []⟩, ⟨['t'], [], []⟩] }
    let b : Envelope := { a with steps := some [⟨['t'], [], []⟩, ⟨['s'], [], []⟩], description := ['x'] }
    a.hash integers = b.hash integers ∧ SameChange b a ∧ a.hash integers ≠ [] := by
  intro a b
  obtain ⟨hiff, hchecked, hsame⟩ := digest_is_consent integers
  have hdigest : a.hash integers = b.hash integers :=
    (hiff a b emptyPlan_counted emptyPlan_counted).mpr ⟨rfl, rfl, rfl, rfl, .refl _, .swap _ _ [],
      .refl _, .refl _, .refl _, rfl, rfl, rfl, rfl, rfl, rfl, rfl⟩
  have hverify := verify_own_digest (e := b) emptyPlan_counted 7
  refine ⟨hdigest, hsame b a _ 7 emptyPlan_counted emptyPlan_counted hdigest hverify, ?_⟩
  exact hdigest ▸ (hchecked b _ 7 hverify).2.2.2.1

/-- How the change can be taken back is part of what was approved, and a reference that names no
schema asks for none. -/
theorem rollback_changes_digest : emptyPlan.hash integers ≠
      ({ emptyPlan with rollback := ⟨['s'], ['1'], true, []⟩ } : Envelope).hash integers ∧
    ∃ expected : Reference, emptyPlan.verify integers expected 7 = .ok () ∧
      expected.schemaVersion ≠ emptyPlan.schemaVersion := by
  refine ⟨fun h => ?_, _, verify_own_digest emptyPlan_counted 7, by decide⟩
  have hsame := (hashed_eq_iff _ _).mp
    ((hash_eq_iff (b := { emptyPlan with rollback := ⟨['s'], ['1'], true, []⟩ }) emptyPlan_counted
      emptyPlan_counted).mp h)
  exact absurd hsame.rollback (by decide)

end Flotestro.Plans
