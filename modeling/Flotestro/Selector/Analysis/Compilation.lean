import Flotestro.Selector.Analysis.Reading
import Flotestro.Selector.Analysis.Expansion

/-!
# What a compiled condition means

`Compiles` collects what is said of one expression: its text, its arguments, the formula the text is
read as, and what the formula means.  It is proved by induction on the expression, with the arguments
recorded so far as a parameter.
-/

set_option autoImplicit false

namespace Flotestro.Selector

open Library List

section

variable {ι : Type} [DecidableEq ι] (identify uuid : Str → Option ι) (offset : Nat)

def named (v : Str) : Bool := (identify v).isSome

/-- The condition of a fact, with its value for the placeholder. -/
structure HasCondition (field : Field) (value : Str) (a : Atom) : Prop where
  text : ∀ args, compileFact (named identify) offset field value args =
    .ok (a.render (offset + args.length + 1), args ++ argumentsOfFact field value)
  placeholder : ∀ k, (a.placeholder k).toList = List.range' k (argumentsOfFact field value).length
  answers : Taken identify uuid field value → ∀ db h, h.fits = true →
    a.holds db h uuid (argumentsOfFact field value).head? = some (answers db h identify field value)

variable {identify uuid offset}

theorem booleans_cases {v : Str} (h : booleans.contains v = true) :
    v = ascii "true".toList ∨ v = ascii "false".toList := by
  simpa [booleans] using h

theorem positive_or_zero (n : Nat) (b : Bool) :
    decide (decide (0 < n) = b) = if b then decide (0 < n) else decide (n = 0) := by
  cases b <;> cases n <;> simp

theorem hasCondition_of_text {field : Field} {value : Str} {a : Atom} (ha : a.template = none)
    (hargs : argumentsOfFact field value = [])
    (htext : ∀ args, compileFact (named identify) offset field value args = .ok (a.before, args))
    (hanswers : ∀ db h, a.holds db h uuid none = some (answers db h identify field value)) :
    HasCondition identify uuid offset field value a := by
  refine ⟨fun args => ?_, fun k => ?_, fun _ db h _ => ?_⟩
  · rw [htext args, hargs]
    simp [Atom.render, ha]
  · rw [hargs]
    simp only [Atom.placeholder, ha]
    rfl
  · rw [hargs]
    exact hanswers db h

/-- A fact that is true or false. -/
theorem hasCondition_boolean {field : Field} {value : Str} (a : Bool → Atom)
    (h : ∀ b, HasCondition identify uuid offset field (ascii (toString b).toList) (a b))
    (hok : booleans.contains value = true) : ∃ a, HasCondition identify uuid offset field value a := by
  rcases booleans_cases hok with rfl | rfl
  · exact ⟨a true, h true⟩
  · exact ⟨a false, h false⟩

theorem hasCondition_agentVersion {value : Str} (hok : (parseVersionComparison value).isSome = true) :
    ∃ a, HasCondition identify uuid offset .agentVersion value a := by
  obtain ⟨c, hc⟩ := Option.isSome_iff_exists.mp hok
  refine ⟨.agentVersion c.operator, fun args => ?_, fun k => ?_, fun htaken db h hfits => ?_⟩
  · simp only [compileFact, hc, argumentsOfFact]
    rfl
  · simp only [argumentsOfFact, hc]
    rfl
  · have hnumbers := htaken c hc
    simp only [argumentsOfFact, hc, answers]
    cases hv : h.agentVersion with
    | none => simp [Atom.holds, Atom.holdsText, hv, toInt4, hnumbers]
    | some parts =>
      have hparts : fitsInt4 parts = true := by simpa [Row.fits, hv] using hfits
      simp [Atom.holds, Atom.holdsText, hv, toInt4, hnumbers, hparts]

theorem hasCondition_relay (value : Str) : ∃ a, HasCondition identify uuid offset .relay value a := by
  cases hv : identify value with
  | none =>
    refine ⟨.relayName, fun args => ?_, fun _ => rfl, fun _ db h _ => ?_⟩
    · simp only [compileFact, named, hv]
      rfl
    · simp only [answers, hv]
      rfl
  | some id =>
    refine ⟨.relayId, fun args => ?_, fun _ => rfl, fun htaken db h _ => ?_⟩
    · simp only [compileFact, named, hv]
      rfl
    · have huuid : uuid value = some id := by rw [htaken (by rw [hv]; rfl), hv]
      simp [answers, hv, argumentsOfFact, Atom.holds, Atom.holdsText, huuid]

theorem hasCondition_memberOf (value : Str) :
    HasCondition identify uuid offset .memberOf value .memberOf := by
  refine ⟨fun _ => rfl, fun _ => rfl, fun htaken db h _ => ?_⟩
  obtain ⟨id, hid⟩ := Option.isSome_iff_exists.mp htaken.1
  have huuid : uuid value = some id := by rw [htaken.2, hid]
  simp [answers, hid, argumentsOfFact, Atom.holds, Atom.holdsText, huuid, eq_comm]

/-- **Every fact with an allowed value has a condition.** -/
theorem hasCondition (identify uuid : Str → Option ι) (offset : Nat) {field : Field} {value : Str}
    (hgroup : field ≠ .group) (hok : valueOk field value = true) :
    ∃ a, HasCondition identify uuid offset field value a := by
  cases field with
  | site | environment | osFamily | connectionState | lifecycleState | owner | channel
  | failureDomain => exact ⟨.column _, fun _ => rfl, fun _ => rfl, fun _ _ _ _ => rfl⟩
  | capability => exact ⟨.capability, fun _ => rfl, fun _ => rfl, fun _ _ _ _ => rfl⟩
  | osVersion => exact ⟨.osVersion, fun _ => rfl, fun _ => rfl, fun _ _ _ _ => rfl⟩
  | memberOf => exact ⟨.memberOf, hasCondition_memberOf value⟩
  | tag =>
    refine ⟨.tags, fun _ => rfl, fun _ => rfl, fun _ db h _ => ?_⟩
    exact congrArg some (Bool.and_true _)
  | group => exact absurd rfl hgroup
  | securityUpdates =>
    refine hasCondition_boolean .securityUpdates (fun b => ?_) hok
    cases b
    · exact hasCondition_of_text rfl rfl (fun _ => rfl) fun _ h =>
        congrArg some (positive_or_zero h.pendingSecurityUpdates false).symm
    · exact hasCondition_of_text rfl rfl (fun _ => rfl) fun _ h =>
        congrArg some (positive_or_zero h.pendingSecurityUpdates true).symm
  | rebootRequired =>
    refine hasCondition_boolean .rebootRequired (fun b => ?_) hok
    cases b <;> exact hasCondition_of_text rfl rfl (fun _ => rfl) fun _ _ => rfl
  | failedUnits =>
    refine hasCondition_boolean .failedUnits (fun b => ?_) hok
    cases b
    · exact hasCondition_of_text rfl rfl (fun _ => rfl) fun _ h =>
        congrArg some (positive_or_zero h.failedUnits false).symm
    · exact hasCondition_of_text rfl rfl (fun _ => rfl) fun _ h =>
        congrArg some (positive_or_zero h.failedUnits true).symm
  | agentVersion => exact hasCondition_agentVersion hok
  | relay => exact hasCondition_relay value

/-! ## Joined formulas -/

section

variable {db : Tables ι} {h : Row} {args : List Arg}

theorem eval_conj {f : Formula} {fs : List Formula} {bs : List Bool}
    (heval : Forall₂ (fun g b => g.eval db h uuid offset args = some b) (f :: fs) bs) :
    (conj f fs).eval db h uuid offset args = some (bs.all id) := by
  induction fs generalizing f bs with
  | nil =>
    obtain ⟨b, bs, hb, hnil, rfl⟩ := forall₂_cons_left_iff.mp heval
    obtain rfl := forall₂_nil_left_iff.mp hnil
    rw [conj, hb, all_cons, all_nil, Bool.and_true, id]
  | cons g fs ih =>
    obtain ⟨b, bs, hb, hrest, rfl⟩ := forall₂_cons_left_iff.mp heval
    rw [conj, Formula.eval, hb, ih hrest]
    rfl

theorem eval_disj {f : Formula} {fs : List Formula} {bs : List Bool}
    (heval : Forall₂ (fun g b => g.eval db h uuid offset args = some b) (f :: fs) bs) :
    (disj f fs).eval db h uuid offset args = some (bs.any id) := by
  induction fs generalizing f bs with
  | nil =>
    obtain ⟨b, bs, hb, hnil, rfl⟩ := forall₂_cons_left_iff.mp heval
    obtain rfl := forall₂_nil_left_iff.mp hnil
    rw [disj, hb, any_cons, any_nil, Bool.or_false, id]
  | cons g fs ih =>
    obtain ⟨b, bs, hb, hrest, rfl⟩ := forall₂_cons_left_iff.mp heval
    rw [disj, Formula.eval, hb, ih hrest]
    rfl

section
variable (f : Formula) (fs : List Formula)
include f fs

theorem placeholders_conj : (conj f fs).placeholders = (f :: fs).flatMap Formula.placeholders := by
  induction fs generalizing f with
  | nil => exact (append_nil _).symm
  | cons g fs ih =>
    rw [conj, Formula.placeholders, ih g]
    rfl

theorem placeholders_disj : (disj f fs).placeholders = (f :: fs).flatMap Formula.placeholders := by
  induction fs generalizing f with
  | nil => exact (append_nil _).symm
  | cons g fs ih =>
    rw [disj, Formula.placeholders, ih g]
    rfl

end

end

variable (identify uuid offset)

/-- What is said of an expression that is compiled behind some arguments. -/
structure Compiles (e : Expression) (args : List Arg) (text : Str) (f : Formula) : Prop where
  compiled : compileNode (named identify) offset e args = .ok (text, args ++ argumentsOf e)
  readable : Readable text f
  placeholders : f.placeholders = List.range' (offset + args.length + 1) (argumentsOf e).length
  meaning : Everywhere (Taken identify uuid) e → ∀ db h, h.fits = true → ∀ more,
    ∃ b, selects (answers db h identify) e = some b ∧
      f.eval db h uuid offset (args ++ argumentsOf e ++ more) = some b

structure CompilesList (es : List Expression) (args : List Arg) (texts : List Str)
    (fs : List Formula) : Prop where
  compiled : compileList (named identify) offset es args = .ok (texts, args ++ argumentsOfList es)
  readable : Forall₂ Readable texts fs
  placeholders : fs.flatMap Formula.placeholders =
    List.range' (offset + args.length + 1) (argumentsOfList es).length
  meaning : EverywhereList (Taken identify uuid) es → ∀ db h, h.fits = true → ∀ more,
    ∃ bs, meaningList (answers db h identify) (fun _ => none) es = some bs ∧ Forall₂
      (fun f b => f.eval db h uuid offset (args ++ argumentsOfList es ++ more) = some b) fs bs

variable {identify uuid offset}

section

variable {all any : List Expression} {not : Option Expression} {leaf : Field → Str}
  {args : List Arg}

theorem find?_compileOrder (hgroup : leaf .group = []) :
    compileOrder.find? (fun f => leaf f ≠ []) = factOf leaf := by
  rw [show compileOrder = factOrder ++ [.group] from rfl]
  simp [factOf, hgroup]

/-- The fact of a node that has no other condition. -/
theorem exists_factOf (hset : setFields [] [] none leaf = 1) (hgroup : leaf .group = []) :
    ∃ f, factOf leaf = some f ∧ leaf f ≠ [] ∧ f ≠ .group := by
  have hpos : 0 < leaves.countP fun f => leaf f ≠ [] := by
    simp only [setFields] at hset
    simpa using Nat.lt_of_lt_of_eq Nat.zero_lt_one hset.symm
  obtain ⟨g, -, hg⟩ := countP_pos_iff.mp hpos
  have hmem : g ∈ factOrder ++ [.group] := by cases g <;> decide
  have hfound : (factOf leaf).isSome = true := by
    refine find?_isSome.mpr ⟨g, ?_, hg⟩
    rcases mem_append.mp hmem with h | h
    · exact h
    · rw [mem_singleton.mp h] at hg
      exact absurd hgroup (by simpa using hg)
  obtain ⟨f, hf⟩ := Option.isSome_iff_exists.mp hfound
  have hne : leaf f ≠ [] := by simpa using find?_some hf
  exact ⟨f, hf, hne, fun h => hne (by rw [h]; exact hgroup)⟩

theorem compiles_leaf (hset : setFields [] [] none leaf = 1) (hgroup : leaf .group = [])
    (hok : ∀ f, leaf f ≠ [] → valueOk f (leaf f) = true) :
    ∃ text f, Compiles identify uuid offset (.node [] [] none leaf) args text f := by
  obtain ⟨field, hfact, hne, hfield⟩ := exists_factOf hset hgroup
  obtain ⟨a, ha⟩ := hasCondition identify uuid offset hfield (hok field hne)
  have hargs : argumentsOf (.node [] [] none leaf) = argumentsOfFact field (leaf field) := by
    simp [argumentsOf, argumentsOfNot, hfact]
  refine ⟨_, _, ?_, readable_atom a (offset + args.length + 1), ?_, fun htaken db h hfits more => ?_⟩
  · rw [hargs, ← ha.text args]
    simp only [compileNode, compileNot, compileLeaf, find?_compileOrder hgroup, hfact]
    rfl
  · rw [hargs]
    exact ha.placeholder _
  · rw [hargs]
    have hselects : selects (answers db h identify) (.node [] [] none leaf) =
        some (answers db h identify field (leaf field)) := by
      simp [selects, meaning, meaningNot, hgroup, hfact]
    refine ⟨_, hselects, ?_⟩
    rw [← ha.answers (htaken.1 field hne) db h hfits]
    have hplace := ha.placeholder (offset + args.length + 1)
    revert hplace
    cases hk : a.placeholder (offset + args.length + 1) with
    | none =>
      intro hplace
      have hnil : argumentsOfFact field (leaf field) = [] := by
        apply eq_nil_of_length_eq_zero
        have := congrArg List.length hplace
        simpa using this.symm
      rw [hnil]
      rfl
    | some k =>
      intro hplace
      obtain ⟨value, hvalue⟩ : ∃ value, argumentsOfFact field (leaf field) = [value] := by
        apply length_eq_one_iff.mp
        have := congrArg List.length hplace
        simpa using this.symm
      rw [hvalue] at hplace ⊢
      obtain rfl : k = offset + args.length + 1 := by simpa using hplace
      have hindex : offset + args.length + 1 - (offset + 1) = args.length := by omega
      simp [Formula.eval]

variable {e : Expression} {es : List Expression} {texts : List Str} {fs : List Formula}

theorem CompilesList.readable_cons (h : CompilesList identify uuid offset (e :: es) args texts fs) :
    ∃ text f texts' fs', texts = text :: texts' ∧ fs = f :: fs' ∧ Readable text f ∧
      Forall₂ Readable texts' fs' := by
  have hcompiled := h.compiled
  cases h.readable with
  | nil =>
    obtain ⟨r, -, hrest⟩ := bind_eq_ok.mp hcompiled
    obtain ⟨rs, -, hrest⟩ := bind_eq_ok.mp hrest
    exact absurd (congrArg Prod.fst (Except.ok.inj hrest)) (by simp)
  | cons htext htexts => exact ⟨_, _, _, _, rfl, rfl, htext, htexts⟩

section
variable (hgroup : leaf .group = []) (h : CompilesList identify uuid offset (e :: es) args texts fs)
include hgroup h

theorem compiles_all :
    ∃ text f, Compiles identify uuid offset (.node (e :: es) any not leaf) args text f := by
  obtain ⟨text, f, texts, fs, rfl, rfl, htext, htexts⟩ := h.readable_cons
  refine ⟨_, _, ?_, readable_all htext htexts, ?_, fun htaken db h' hfits more => ?_⟩
  · simp only [compileNode, h.compiled]
    rfl
  · rw [placeholders_conj, h.placeholders]
    rfl
  · obtain ⟨bs, hbs, heval⟩ := h.meaning htaken.2.1 db h' hfits more
    refine ⟨bs.all id, ?_, eval_conj heval⟩
    simp only [selects, meaning, hgroup, hbs]
    rfl

theorem compiles_any :
    ∃ text f, Compiles identify uuid offset (.node [] (e :: es) not leaf) args text f := by
  obtain ⟨text, f, texts, fs, rfl, rfl, htext, htexts⟩ := h.readable_cons
  refine ⟨_, _, ?_, readable_any htext htexts, ?_, fun htaken db h' hfits more => ?_⟩
  · simp only [compileNode, h.compiled]
    rfl
  · rw [placeholders_disj, h.placeholders]
    rfl
  · obtain ⟨bs, hbs, heval⟩ := h.meaning htaken.2.2.1 db h' hfits more
    refine ⟨bs.any id, ?_, eval_disj heval⟩
    simp only [selects, meaning, hgroup, hbs]
    rfl

end

theorem compiles_not {text : Str} {f : Formula} (hgroup : leaf .group = [])
    (h : Compiles identify uuid offset e args text f) :
    Compiles identify uuid offset (.node [] [] (some e) leaf) args (notText ++ text) (.not f) := by
  refine ⟨?_, readable_not h.readable, h.placeholders, fun htaken db h' hfits more => ?_⟩
  · simp only [compileNode, compileNot, h.compiled]
    rfl
  · obtain ⟨b, hselects, heval⟩ := h.meaning htaken.2.2.2 db h' hfits more
    refine ⟨!b, ?_, ?_⟩
    · rw [selects] at hselects
      simp only [selects, meaning, meaningNot, hgroup, hselects]
      rfl
    · rw [Formula.eval, show argumentsOf (.node [] [] (some e) leaf) = argumentsOf e from rfl, heval]
      rfl

end

variable (identify uuid offset)

mutual

/-- **Every expression that is validated and expanded is compiled.** -/
theorem compiles_node : (e : Expression) → WellShaped e → references e = [] → (args : List Arg) →
    ∃ text f, Compiles identify uuid offset e args text f
  | .node all any not leaf, hshape, href, args => by
    rw [WellShaped] at hshape
    obtain ⟨hset, hok, hall, hany, hnot⟩ := hshape
    simp only [references, append_eq_nil_iff] at href
    obtain ⟨⟨⟨hgroup, hrefAll⟩, hrefAny⟩, hrefNot⟩ := href
    replace hgroup : leaf .group = [] := by
      by_contra hne
      simp [hne] at hgroup
    match all with
    | e :: es =>
      obtain ⟨texts, fs, h⟩ := compiles_list (e :: es) hall hrefAll args
      exact compiles_all hgroup h
    | [] =>
      match any with
      | e :: es =>
        obtain ⟨texts, fs, h⟩ := compiles_list (e :: es) hany hrefAny args
        exact compiles_any hgroup h
      | [] =>
        match not with
        | some e =>
          obtain ⟨text, f, h⟩ := compiles_node e hnot hrefNot args
          exact ⟨_, _, compiles_not hgroup h⟩
        | none => exact compiles_leaf hset hgroup hok

theorem compiles_list : (es : List Expression) → WellShapedList es → referencesList es = [] →
    (args : List Arg) → ∃ texts fs, CompilesList identify uuid offset es args texts fs
  | [], _, _, args => by
    refine ⟨[], [], ?_, .nil, rfl, fun _ _ _ _ _ => ⟨[], rfl, .nil⟩⟩
    simp [compileList, argumentsOfList]
  | e :: es, hshape, href, args => by
    rw [WellShapedList] at hshape
    rw [referencesList, append_eq_nil_iff] at href
    obtain ⟨text, f, h⟩ := compiles_node e hshape.1 href.1 args
    obtain ⟨texts, fs, hs⟩ := compiles_list es hshape.2 href.2 (args ++ argumentsOf e)
    refine ⟨text :: texts, f :: fs, ?_, .cons h.readable hs.readable, ?_,
      fun htaken db h' hfits more => ?_⟩
    · rw [compileList, h.compiled]
      simp only [bind, Except.bind, hs.compiled, argumentsOfList, append_assoc]
      rfl
    · rw [flatMap_cons, h.placeholders, hs.placeholders, argumentsOfList, length_append,
        length_append]
      have := range'_append_1 (s := offset + args.length + 1) (m := (argumentsOf e).length)
        (n := (argumentsOfList es).length)
      rw [← this]
      congr 2
      omega
    · rw [EverywhereList] at htaken
      obtain ⟨b, hselects, heval⟩ := h.meaning htaken.1 db h' hfits (argumentsOfList es ++ more)
      obtain ⟨bs, hbs, hevals⟩ := hs.meaning htaken.2 db h' hfits more
      rw [selects] at hselects
      refine ⟨b :: bs, by rw [meaningList, hselects, hbs], ?_⟩
      rw [argumentsOfList, ← append_assoc args]
      exact .cons (by rwa [append_assoc]) hevals

end

end

/-! ## The text and the values -/

section

variable {identifier : Str → Bool} {offset : Nat}

/-- Two results of the same text, with as many arguments. -/
def SameResult {τ : Type} (r r' : τ × List Arg) : Prop := r'.1 = r.1 ∧ r'.2.length = r.2.length

variable {r : Str × List Arg} {args args' : List Arg}

theorem sameText_param {t : Template} {value value' : Arg} (hlen : args'.length = args.length)
    (h : param offset t value args = .ok r) :
    ∃ r', param offset t value' args' = .ok r' ∧ SameResult r r' := by
  obtain rfl := Except.ok.inj h
  refine ⟨_, rfl, ?_, ?_⟩
  · rw [hlen]
  · simp [hlen]

theorem sameText_fact {field : Field} {value value' : Str}
    (hsame : SameText identifier field value value') (hlen : args'.length = args.length)
    (h : compileFact identifier offset field value args = .ok r) :
    ∃ r', compileFact identifier offset field value' args' = .ok r' ∧ SameResult r r' := by
  obtain ⟨-, hsame⟩ := hsame
  have hkept : ∀ {text : Str} {r : Str × List Arg}, (.ok (text, args) : Compiled) = .ok r →
      ∃ r', (.ok (text, args') : Compiled) = .ok r' ∧ SameResult r r' := by
    intro text r h
    obtain rfl := Except.ok.inj h
    exact ⟨_, rfl, rfl, hlen⟩
  cases field with
  | securityUpdates | failedUnits =>
    obtain rfl : value = value' := hsame
    simp only [compileFact] at h ⊢
    split at h
    next htrue =>
      rw [if_pos htrue]
      exact hkept h
    next hfalse =>
      rw [if_neg hfalse]
      exact hkept h
  | rebootRequired =>
    obtain rfl : value = value' := hsame
    exact hkept h
  | agentVersion =>
    simp only [compileFact] at h ⊢
    cases hc : parseVersionComparison value with
    | none =>
      rw [hc] at h
      cases h
    | some c =>
      rw [hc] at h hsame
      cases hc' : parseVersionComparison value' with
      | none =>
        rw [hc'] at hsame
        cases hsame
      | some c' =>
        rw [hc'] at hsame
        have hop : c.operator = c'.operator := Option.some.inj hsame
        dsimp only at h ⊢
        rw [← hop]
        exact sameText_param hlen h
  | relay =>
    simp only [compileFact] at h ⊢
    rw [← hsame]
    split at h
    next hid =>
      rw [if_pos hid]
      exact sameText_param hlen h
    next hname =>
      rw [if_neg hname]
      exact sameText_param hlen h
  | group => exact absurd h (by simp [compileFact])
  | _ => exact sameText_param hlen h

theorem sameText_leaf {leaf leaf' : Field → Str}
    (hsame : ∀ f, SameText identifier f (leaf f) (leaf' f)) (hlen : args'.length = args.length)
    (h : compileLeaf identifier offset leaf args = .ok r) :
    ∃ r', compileLeaf identifier offset leaf' args' = .ok r' ∧ SameResult r r' := by
  have hset : (fun f => decide (leaf f ≠ [])) = fun f => decide (leaf' f ≠ []) := by
    funext f
    simp [(hsame f).1]
  unfold compileLeaf at h ⊢
  rw [← hset]
  cases hfield : compileOrder.find? fun f => leaf f ≠ [] with
  | none =>
    rw [hfield] at h
    cases h
  | some field =>
    rw [hfield] at h
    exact sameText_fact (hsame field) hlen h

theorem isEmpty_of_alike {es es' : List Expression} (h : AlikeList identifier es es') :
    es'.isEmpty = es.isEmpty := by
  cases es with
  | nil =>
    cases es' with
    | nil => rfl
    | cons => exact absurd h (by simp [AlikeList])
  | cons =>
    cases es' with
    | nil => exact absurd h (by simp [AlikeList])
    | cons => rfl

theorem sameText_parenthesize {op : List Char} {x y : Except CompileError (List Str × List Arg)}
    (hxy : ∀ q, x = .ok q → ∃ q', y = .ok q' ∧ SameResult q q') (h : parenthesize op <$> x = .ok r) :
    ∃ r', parenthesize op <$> y = .ok r' ∧ SameResult r r' := by
  cases x with
  | error e => exact absurd h (by simp)
  | ok q =>
    obtain ⟨q', rfl, htext, hargs⟩ := hxy q rfl
    obtain rfl := Except.ok.inj h
    refine ⟨_, rfl, ?_, hargs⟩
    simp [parenthesize, htext]

mutual

/-- The text does not depend on the values. -/
theorem sameText_node : (e e' : Expression) → Alike identifier e e' → (args args' : List Arg) →
    (r : Str × List Arg) → args'.length = args.length →
    compileNode identifier offset e args = .ok r →
    ∃ r', compileNode identifier offset e' args' = .ok r' ∧ SameResult r r'
  | .node all any not leaf, .node all' any' not' leaf', halike, args, args', r, hlen, h => by
    rw [Alike] at halike
    obtain ⟨hall, hany, hnot, hleaf⟩ := halike
    rw [compileNode] at h ⊢
    rw [isEmpty_of_alike hall, isEmpty_of_alike hany]
    split at h
    next hne =>
      rw [if_pos hne]
      exact sameText_parenthesize (sameText_list all all' hall args args' · hlen ·) h
    next hnil =>
      rw [if_neg hnil]
      split at h
      next hne =>
        rw [if_pos hne]
        exact sameText_parenthesize (sameText_list any any' hany args args' · hlen ·) h
      next hnil' =>
        rw [if_neg hnil']
        exact sameText_not not not' hnot hleaf args args' r hlen h

theorem sameText_list : (es es' : List Expression) → AlikeList identifier es es' →
    (args args' : List Arg) → (r : List Str × List Arg) → args'.length = args.length →
    compileList identifier offset es args = .ok r →
    ∃ r', compileList identifier offset es' args' = .ok r' ∧ SameResult r r'
  | [], [], _, args, args', r, hlen, h => by
    obtain rfl := Except.ok.inj h
    exact ⟨_, rfl, rfl, hlen⟩
  | [], _ :: _, halike, _, _, _, _, _ => absurd halike (by simp [AlikeList])
  | _ :: _, [], halike, _, _, _, _, _ => absurd halike (by simp [AlikeList])
  | e :: es, e' :: es', halike, args, args', r, hlen, h => by
    rw [AlikeList] at halike
    rw [compileList] at h
    obtain ⟨q, hq, h⟩ := bind_eq_ok.mp h
    obtain ⟨qs, hqs, h⟩ := bind_eq_ok.mp h
    obtain ⟨q', hq', htext, hargs⟩ := sameText_node e e' halike.1 args args' q hlen hq
    obtain ⟨qs', hqs', htexts, hargs'⟩ := sameText_list es es' halike.2 q.2 q'.2 qs hargs hqs
    obtain rfl := Except.ok.inj h
    refine ⟨(q'.1 :: qs'.1, qs'.2), ?_, ?_, hargs'⟩
    · rw [compileList, hq']
      simp only [bind, Except.bind, hqs']
      rfl
    · dsimp only
      rw [htext, htexts]

theorem sameText_not {leaf leaf' : Field → Str} : (e e' : Option Expression) →
    AlikeOption identifier e e' → (∀ f, SameText identifier f (leaf f) (leaf' f)) →
    (args args' : List Arg) → (r : Str × List Arg) → args'.length = args.length →
    compileNot identifier offset leaf e args = .ok r →
    ∃ r', compileNot identifier offset leaf' e' args' = .ok r' ∧ SameResult r r'
  | none, none, _, hleaf, args, args', r, hlen, h => by
    rw [compileNot] at h ⊢
    exact sameText_leaf hleaf hlen h
  | none, some _, halike, _, _, _, _, _, _ => absurd halike (by simp [AlikeOption])
  | some _, none, halike, _, _, _, _, _, _ => absurd halike (by simp [AlikeOption])
  | some e, some e', halike, _, args, args', r, hlen, h => by
    rw [AlikeOption] at halike
    rw [compileNot] at h
    obtain ⟨q, hq, h⟩ := bind_eq_ok.mp h
    obtain ⟨q', hq', htext, hargs⟩ := sameText_node e e' halike args args' q hlen hq
    obtain rfl := Except.ok.inj h
    refine ⟨(ascii "not ".toList ++ q'.1, q'.2), ?_, ?_, hargs⟩
    · rw [compileNot, hq']
      rfl
    · dsimp only
      rw [htext]

end

end

end Flotestro.Selector
