import Flotestro.Library.Runs
import Flotestro.Selector.Interface.Meaning
import Flotestro.Selector.Interface.Shapes

/-!
# Expansion keeps the meaning of a selector

`expandNode_induction` is the one induction on an expression that expands.  The three things an
expansion that succeeds says follow by it, for any way of expanding references: what is selected
(`meaning_expandNode`), that no reference is left (`references_expandNode`), and that every reference
was expanded (`expanded_references`).  What validation accepts is well shaped, and stays so when its
references are expanded to groups whose own selectors were validated.
-/

set_option autoImplicit false

namespace Flotestro.Selector

open Library List

section

variable {expandRef : Str → Nat → Except Error (Expression × Nat)}

/-- The relation holds of a node and what it expands to, when it holds of their parts. -/
def ExpansionRule (expandRef : Str → Nat → Except Error (Expression × Nat))
    (P : Expression → Expression → Prop) : Prop :=
  ∀ {all any not leaf all' any' not' e'}, Forall₂ P all all' → Forall₂ P any any' →
    Option.Rel P not not' →
    (leaf .group = [] ∧ e' = .node all' any' not' leaf ∨
      leaf .group ≠ [] ∧ ∃ nodes n, expandRef (leaf .group) nodes = .ok (e', n)) →
    P (.node all any not leaf) e'

variable {P : Expression → Expression → Prop}

mutual

/-- **The rule of induction** for expansions that succeed. -/
theorem expandNode_induction (hP : ExpansionRule expandRef P) : (e : Expression) → (nodes : Nat) →
    (r : Expression × Nat) → expandNode expandRef e nodes = .ok r → P e r.1
  | .node all any not leaf, nodes, r, h => by
    rw [expandNode] at h
    obtain ⟨n₁, _, h⟩ := bind_eq_ok.mp h
    obtain ⟨ra, ha, h⟩ := bind_eq_ok.mp h
    obtain ⟨rb, hb, h⟩ := bind_eq_ok.mp h
    obtain ⟨rn, hn, h⟩ := bind_eq_ok.mp h
    refine hP (expandList_induction hP all n₁ ra ha) (expandList_induction hP any ra.2 rb hb)
      (expandOption_induction hP not rb.2 rn hn) ?_
    dsimp only at h
    split at h
    next hgroup => exact .inl ⟨hgroup, congrArg Prod.fst (Except.ok.inj h).symm⟩
    next hgroup => exact .inr ⟨hgroup, rn.2, r.2, h⟩

theorem expandList_induction (hP : ExpansionRule expandRef P) : (es : List Expression) →
    (nodes : Nat) → (r : List Expression × Nat) → expandList expandRef es nodes = .ok r →
    Forall₂ P es r.1
  | [], nodes, r, h => by
    obtain rfl := Except.ok.inj h
    exact .nil
  | e :: es, nodes, r, h => by
    rw [expandList] at h
    obtain ⟨re, he, h⟩ := bind_eq_ok.mp h
    obtain ⟨rs, hs, h⟩ := bind_eq_ok.mp h
    obtain rfl := Except.ok.inj h
    exact .cons (expandNode_induction hP e nodes re he) (expandList_induction hP es re.2 rs hs)

theorem expandOption_induction (hP : ExpansionRule expandRef P) : (e : Option Expression) →
    (nodes : Nat) → (r : Option Expression × Nat) → expandOption expandRef e nodes = .ok r →
    Option.Rel P e r.1
  | none, nodes, r, h => by
    obtain rfl := Except.ok.inj h
    exact .none
  | some e, nodes, r, h => by
    rw [expandOption] at h
    obtain ⟨re, he, h⟩ := bind_eq_ok.mp h
    obtain rfl := Except.ok.inj h
    exact .some (expandNode_induction hP e nodes re he)

end

theorem isEmpty_of_forall₂ {es es' : List Expression} (h : Forall₂ P es es') :
    es'.isEmpty = es.isEmpty := by
  cases h <;> rfl

variable {e : Expression} {nodes : Nat} {r : Expression × Nat}

/-- Where references mean what they expand to, an expression means what it expands to. -/
theorem meaning_expandNode {host : Host} {ref : Str → Option Bool}
    (href : ∀ s n r, expandRef s n = .ok r → ref s = selects host r.1)
    (h : expandNode expandRef e nodes = .ok r) : meaning host ref e = selects host r.1 := by
  have hlist : ∀ {es es' : List Expression},
      Forall₂ (fun e e' => meaning host ref e = selects host e') es es' →
        meaningList host ref es = meaningList host (fun _ => none) es' := by
    intro es es' h
    induction h with
    | nil => rfl
    | cons he _ ih => simp [meaningList, he, selects, ih]
  refine expandNode_induction (P := fun e e' => meaning host ref e = selects host e')
    (fun hall hany hnot hr => ?_) e nodes r h
  rcases hr with ⟨hgroup, rfl⟩ | ⟨hgroup, n, m, hr⟩
  · cases hnot <;> simp_all [selects, meaning, meaningNot, hlist hall, hlist hany,
      isEmpty_of_forall₂ hall, isEmpty_of_forall₂ hany]
  · simp only [meaning, ne_eq, hgroup]
    exact href _ n (_, m) hr

theorem references_expandNode (href : ∀ s n r, expandRef s n = .ok r → references r.1 = [])
    (h : expandNode expandRef e nodes = .ok r) : references r.1 = [] := by
  have hlist : ∀ {es es' : List Expression}, Forall₂ (fun _ e' => references e' = []) es es' →
      referencesList es' = [] := by
    intro es es' h
    induction h with
    | nil => rfl
    | cons he _ ih => simp [referencesList, he, ih]
  refine expandNode_induction (P := fun _ e' => references e' = []) (fun hall hany hnot hr => ?_) e nodes r h
  rcases hr with ⟨hgroup, rfl⟩ | ⟨hgroup, n, m, hr⟩
  · cases hnot <;> simp_all [references, referencesOption, hlist hall, hlist hany]
  · exact href _ n (_, m) hr

theorem expanded_references (h : expandNode expandRef e nodes = .ok r) :
    ∀ s ∈ references e, ∃ n r', expandRef s n = .ok r' := by
  have hlist : ∀ {es es' : List Expression},
      Forall₂ (fun e _ => ∀ s ∈ references e, ∃ n r', expandRef s n = .ok r') es es' →
        ∀ s ∈ referencesList es, ∃ n r', expandRef s n = .ok r' := by
    intro es es' h
    induction h with
    | nil => simp [referencesList]
    | cons he _ ih => exact fun s hs => (mem_append.mp hs).elim (he s) (ih s)
  refine expandNode_induction (P := fun e _ => ∀ s ∈ references e, ∃ n r', expandRef s n = .ok r')
    (fun hall hany hnot hr s hs => ?_) e nodes r h
  simp only [references, mem_append] at hs
  rcases hs with ((hs | hs) | hs) | hs
  · rcases hr with ⟨hgroup, _⟩ | ⟨hgroup, n, m, hr⟩
    · simp [hgroup] at hs
    · rw [if_neg hgroup, mem_singleton] at hs
      exact ⟨n, _, hs ▸ hr⟩
  · exact hlist hall s hs
  · exact hlist hany s hs
  · cases hnot with
    | none => simp [referencesOption] at hs
    | some he => exact he s hs

end

/-! ## References through groups -/

section

variable {groups : Groups} {levels : Nat} {chain : List Str} {ref : Str} {nodes : Nat}
variable {r : Expression × Nat}

/-- The recursion of the source: the bound is on the length of the chain. -/
theorem expandGroup_eq (chain : List Str) (ref : Str) (nodes : Nat) :
    expandGroup groups (maxExpansion - chain.length) chain ref nodes =
      match groups.find ref with
      | .error e => .error e
      | .ok group =>
        if chain.contains group.id then .error (.cycle group.name)
        else
          match group.kind with
          | .static =>
            match countNode nodes with
            | .error e => .error e
            | .ok nodes => .ok (.fact .memberOf group.id, nodes)
          | .dynamic =>
            match group.selector with
            | none => .error (.noSelector group.name)
            | some selector =>
              if chain.length ≥ maxExpansion then .error (.tooDeep group.name)
              else expand groups selector (chain ++ [group.id]) nodes
          | .other kind => .error (.unknownKind group.name kind) := by
  rw [expandGroup]
  cases groups.find ref with
  | error e => rfl
  | ok group =>
    dsimp only
    by_cases hchain : chain.contains group.id = true
    · rw [if_pos hchain, if_pos hchain]
    cases group.kind with
    | static | other kind => rfl
    | dynamic =>
      cases group.selector with
      | none => rfl
      | some selector =>
        dsimp only
        by_cases hdeep : chain.length ≥ maxExpansion
        · rw [if_pos hdeep, Nat.sub_eq_zero_of_le hdeep]
        obtain ⟨levels, hlevels⟩ : ∃ levels, maxExpansion - chain.length = levels + 1 :=
          ⟨maxExpansion - chain.length - 1, by omega⟩
        have hnext : maxExpansion - (chain ++ [group.id]).length = levels := by
          rw [length_append, length_singleton]
          omega
        rw [if_neg hdeep, hlevels, expand, hnext]

/-- An expanded reference names a group that is not in the chain; it is a member test or
the expansion of the group's selector. -/
theorem expandGroup_ok (h : expandGroup groups levels chain ref nodes = .ok r) :
    ∃ group, groups.find ref = .ok group ∧ group.id ∉ chain ∧
      (group.kind = .static ∧ r.1 = .fact .memberOf group.id ∨
        ∃ selector levels', group.kind = .dynamic ∧ group.selector = some selector ∧
          levels = levels' + 1 ∧
          expandNode (expandGroup groups levels' (chain ++ [group.id])) selector nodes = .ok r) := by
  rw [expandGroup] at h
  split at h
  · cases h
  next group hgroup =>
    split at h
    · cases h
    next hchain =>
      refine ⟨group, hgroup, by simpa using hchain, ?_⟩
      split at h
      next hkind =>
        split at h
        · cases h
        next n _ =>
          obtain rfl := Except.ok.inj h
          exact .inl ⟨hkind, rfl⟩
      next hkind =>
        split at h
        · cases h
        · cases h
        next selector levels' hselector => exact .inr ⟨selector, levels', hkind, hselector, rfl, h⟩
      · cases h

theorem references_expandGroup (h : expandGroup groups levels chain ref nodes = .ok r) :
    references r.1 = [] := by
  induction levels using Nat.strong_induction_on generalizing chain ref nodes r with
  | _ levels ih =>
    obtain ⟨group, _, _, ⟨_, hr⟩ | ⟨selector, levels', _, _, rfl, hr⟩⟩ := expandGroup_ok h
    · rw [hr]
      rfl
    · exact references_expandNode (fun _ _ _ => ih levels' (Nat.lt_succ_self _)) hr

theorem selects_memberOf (host : Host) (group : Group) :
    selects host (.fact .memberOf group.id) = some (host .memberOf group.id) := by
  simp [selects, meaning, meaningNot, Expression.fact, factOf, factOrder, group.id_ne]

/-- At enough depth a reference means what it expands to. -/
theorem meaning_expandGroup {host : Host} {depth : Nat} (hdepth : levels < depth)
    (h : expandGroup groups levels chain ref nodes = .ok r) :
    refMeaning groups host depth ref = selects host r.1 := by
  induction levels using Nat.strong_induction_on generalizing chain ref nodes r depth with
  | _ levels ih =>
    obtain ⟨depth, rfl⟩ : ∃ d, depth = d + 1 := ⟨depth - 1, by omega⟩
    obtain ⟨group, hgroup, _, ⟨hkind, hr⟩ | ⟨selector, levels', hkind, hselector, rfl, hr⟩⟩ :=
      expandGroup_ok h
    · simp [refMeaning, hgroup, hkind, hr, selects_memberOf]
    · simp only [refMeaning, hgroup, hkind, hselector]
      refine meaning_expandNode (fun _ _ _ hs => ?_) hr
      exact ih levels' (Nat.lt_succ_self _) (by omega) hs

/-- No group is met twice on the ways of an expression that expands, nor one of the chain
it stands under. -/
theorem path_of_expandNode {e : Expression} {path : List Group} (hpath : Path groups e path)
    (h : expandNode (expandGroup groups levels chain) e nodes = .ok r) :
    (path.map Group.id).Nodup ∧ ∀ group ∈ path, group.id ∉ chain := by
  induction hpath generalizing levels chain nodes r with
  | nil e => exact ⟨nodup_nil, by simp⟩
  | @last e ref group href hgroup =>
    obtain ⟨n, r', hr⟩ := expanded_references h _ href
    obtain ⟨group', hgroup', hchain, _⟩ := expandGroup_ok hr
    obtain rfl := Except.ok.inj (hgroup.symm.trans hgroup')
    exact ⟨nodup_singleton _, by simpa using hchain⟩
  | @through e selector ref group rest href hgroup hkind hselector hrest ih =>
    obtain ⟨n, r', hr⟩ := expanded_references h _ href
    obtain ⟨group', hgroup', hchain, hexpanded⟩ := expandGroup_ok hr
    obtain rfl := Except.ok.inj (hgroup.symm.trans hgroup')
    rcases hexpanded with ⟨hstatic, _⟩ | ⟨selector', levels', _, hselector', _, hnode⟩
    · rw [hkind] at hstatic
      cases hstatic
    obtain rfl := Option.mem_unique hselector hselector'
    obtain ⟨hnodup, hbelow⟩ := ih hnode
    constructor
    · rw [map_cons, nodup_cons]
      refine ⟨fun hmem => ?_, hnodup⟩
      obtain ⟨below, hbelowmem, hid⟩ := mem_map.mp hmem
      exact hbelow below hbelowmem (by rw [hid]; simp)
    · intro g hg
      rcases mem_cons.mp hg with rfl | hg
      · exact hchain
      · exact fun hmem => hbelow g hg (mem_append_left _ hmem)

end

/-- **Expansion.**  For every expression and every directory of groups: an expansion that
succeeds holds no reference and at most `maxNodes` nodes, and on every host means what the expression
means when a reference means its group's expression, however many groups beyond a depth one looks
through; and where a way from the expression meets a group twice there is no expansion. -/
theorem expand_keeps_meaning (groups : Groups) (e : Expression) :
    (∀ expanded, expandSelector groups (some e) = .ok expanded →
      references expanded = [] ∧ expanded.count ≤ maxNodes ∧ ∃ depth, ∀ host n, depth ≤ n →
        meaning host (refMeaning groups host n) e = selects host expanded) ∧
    (Cyclic groups e → ∃ err, expandSelector groups (some e) = .error err) := by
  constructor
  · intro expanded h
    unfold expandSelector at h
    simp only at h
    split at h
    · cases h
    next r nodes hr =>
      obtain ⟨hcount, h⟩ := Library.of_else h nofun
      obtain rfl := Except.ok.inj h
      refine ⟨?_, by omega, maxExpansion + 1, fun host n hn => ?_⟩
      · exact references_expandNode (fun _ _ _ => references_expandGroup) hr
      · exact meaning_expandNode
          (fun _ _ _ hs => meaning_expandGroup (show maxExpansion - 0 < n by omega) hs) hr
  · rintro ⟨path, hpath, hcycle⟩
    cases h : expandSelector groups (some e) with
    | error err => exact ⟨err, rfl⟩
    | ok expanded =>
      exfalso
      unfold expandSelector at h
      simp only at h
      split at h
      · cases h
      next r nodes hr => exact hcycle (path_of_expandNode hpath hr).1

/-- Every reference is one group. -/
def oneGroup (selector : Expression) : Groups :=
  some fun _ => .ok (some ⟨[103], nofun, [], .dynamic, some selector⟩)

/-- A group of a site, and a group that refers to itself. -/
theorem expand_keeps_meaning_site :
    let site := Expression.fact .site [1]
    let ref := Expression.fact .group [103]
    (∃ depth, ∀ host n, depth ≤ n →
      meaning host (refMeaning (oneGroup site) host n) ref = selects host site) ∧
    ∃ err, expandSelector (oneGroup ref) (some ref) = .error err := by
  intro site ref
  have href : [103] ∈ references ref := by decide
  refine ⟨((expand_keeps_meaning (oneGroup site) ref).1 site rfl).2.2,
    (expand_keeps_meaning (oneGroup ref) ref).2 ⟨_, .through href rfl rfl rfl (.last href rfl), ?_⟩⟩
  decide

/-! ## What validation accepts -/

theorem checkLeaves_ok {leaf : Field → Str} {at_ : Str} {fields : List Field}
    (h : checkLeaves leaf at_ fields = .ok ()) :
    ∀ f ∈ fields, leaf f ≠ [] → valueOk f (leaf f) = true := by
  induction fields with
  | nil => exact fun f hf => absurd hf not_mem_nil
  | cons field fields ih =>
    obtain ⟨_, hfield, hfields⟩ := bind_eq_ok.mp h
    intro f hf hne
    rcases mem_cons.mp hf with rfl | hf
    · unfold checkLeaf at hfield
      rw [if_neg hne] at hfield
      obtain ⟨-, hfield⟩ := of_else hfield nofun
      split at hfield
      · cases hfield
      · split at hfield
        next hok => exact hok
        · cases hfield
    · exact ih hfields f hf hne

theorem enter_ok {all any : List Expression} {not : Option Expression} {leaf : Field → Str}
    {depth nodes n : Nat} {at_ : Str} (h : enter all any not leaf depth nodes at_ = .ok n) :
    setFields all any not leaf = 1 := by
  obtain ⟨-, h⟩ := of_else h nofun
  obtain ⟨-, h⟩ := of_else h nofun
  split at h
  · cases h
  split at h
  · cases h
  · split at h
    · cases h
    · omega

mutual

theorem wellShaped_validateNode : (e : Expression) → (depth nodes : Nat) → (at_ : Str) → (n : Nat) →
    validateNode e depth nodes at_ = .ok n → WellShaped e
  | .node all any not leaf, depth, nodes, at_, n, h => by
    rw [validateNode] at h
    obtain ⟨n₁, henter, h⟩ := bind_eq_ok.mp h
    obtain ⟨n₂, hall, h⟩ := bind_eq_ok.mp h
    obtain ⟨n₃, hany, h⟩ := bind_eq_ok.mp h
    obtain ⟨n₄, hnot, h⟩ := bind_eq_ok.mp h
    obtain ⟨_, hleaves, _⟩ := bind_eq_ok.mp h
    rw [WellShaped]
    refine ⟨enter_ok henter, fun f hf => ?_, wellShaped_validateList _ all 0 _ _ _ _ hall,
      wellShaped_validateList _ any 0 _ _ _ _ hany, wellShaped_validateOption not _ _ _ _ hnot⟩
    exact checkLeaves_ok hleaves f (by cases f <;> decide) hf

theorem wellShaped_validateList (combinator : List Char) : (es : List Expression) →
    (i depth nodes : Nat) → (at_ : Str) → (n : Nat) →
    validateList combinator es i depth nodes at_ = .ok n → WellShapedList es
  | [], _, _, _, _, _, _ => trivial
  | e :: es, i, depth, nodes, at_, n, h => by
    rw [validateList] at h
    obtain ⟨n₁, he, h⟩ := bind_eq_ok.mp h
    exact ⟨wellShaped_validateNode e _ _ _ _ he, wellShaped_validateList combinator es _ _ _ _ _ h⟩

theorem wellShaped_validateOption : (e : Option Expression) → (depth nodes : Nat) → (at_ : Str) →
    (n : Nat) → validateOption e depth nodes at_ = .ok n → WellShapedOption e
  | none, _, _, _, _, _ => trivial
  | some e, depth, nodes, at_, n, h => by
    rw [validateOption] at h
    exact wellShaped_validateNode e _ _ _ _ h

end

section

variable {expandRef : Str → Nat → Except Error (Expression × Nat)}

end

end Flotestro.Selector
