import Flotestro.Selector.Model.Expand

/-!
# What a selector selects

A host answers every fact, and a group reference means its group: `meaning` reads an expression with
a meaning for the references, `refMeaning` gives a reference the meaning of its group's expression
through a number of groups.  A node names one condition; of one that names several, a reference comes
first and then what the compiler reads first.
-/

set_option autoImplicit false

namespace Flotestro.Selector

/-- A host, as its answers to the facts. -/
abbrev Host := Field → Str → Bool

/-- The facts in the order of the compiler.  SOURCE: selector.go:462-524 -/
def factOrder : List Field :=
  [.site, .environment, .osFamily, .tag, .capability, .connectionState, .lifecycleState, .owner,
    .channel, .osVersion, .securityUpdates, .rebootRequired, .failedUnits, .agentVersion, .relay,
    .failureDomain, .memberOf]

def factOf (leaf : Field → Str) : Option Field := factOrder.find? fun f => leaf f ≠ []

section

variable (host : Host) (ref : Str → Option Bool)

mutual

/-- Whether a host is selected; `none` where an expression says nothing. -/
def meaning : Expression → Option Bool
  | .node all any not leaf =>
    if leaf .group ≠ [] then ref (leaf .group)
    else if !all.isEmpty then (meaningList all).map (·.all id)
    else if !any.isEmpty then (meaningList any).map (·.any id)
    else meaningNot ((factOf leaf).map fun f => host f (leaf f)) not

def meaningList : List Expression → Option (List Bool)
  | [] => some []
  | e :: es =>
    match meaning e, meaningList es with
    | some b, some bs => some (b :: bs)
    | _, _ => none

/-- The negation, or what a node without one means. -/
def meaningNot (otherwise : Option Bool) : Option Expression → Option Bool
  | none => otherwise
  | some e => (meaning e).map (!·)

end

end

/-- An expression without references. -/
def selects (host : Host) (e : Expression) : Option Bool := meaning host (fun _ => none) e

/-- A reference means its group: the members, or what its expression selects. -/
def refMeaning (groups : Groups) (host : Host) : Nat → Str → Option Bool
  | 0, _ => none
  | depth + 1, ref =>
    match groups.find ref with
    | .error _ => none
    | .ok group =>
      match group.kind, group.selector with
      | .static, _ => some (host .memberOf group.id)
      | .dynamic, some selector => meaning host (refMeaning groups host depth) selector
      | _, _ => none

mutual

/-- The references of an expression, wherever they stand. -/
def references : Expression → List Str
  | .node all any not leaf =>
    (if leaf .group = [] then [] else [leaf .group]) ++ referencesList all ++ referencesList any ++
      referencesOption not

def referencesList : List Expression → List Str
  | [] => []
  | e :: es => references e ++ referencesList es

def referencesOption : Option Expression → List Str
  | none => []
  | some e => references e

end

/-- The groups met on a way from an expression through references. -/
inductive Path (groups : Groups) : Expression → List Group → Prop where
  | nil (e : Expression) : Path groups e []
  | last {e : Expression} {ref : Str} {group : Group} (href : ref ∈ references e)
      (hgroup : groups.find ref = .ok group) : Path groups e [group]
  | through {e selector : Expression} {ref : Str} {group : Group} {rest : List Group}
      (href : ref ∈ references e) (hgroup : groups.find ref = .ok group)
      (hkind : group.kind = .dynamic) (hselector : group.selector = some selector)
      (hrest : Path groups selector rest) : Path groups e (group :: rest)

/-- A way from the expression meets a group twice. -/
def Cyclic (groups : Groups) (e : Expression) : Prop :=
  ∃ path, Path groups e path ∧ ¬ (path.map Group.id).Nodup

end Flotestro.Selector
