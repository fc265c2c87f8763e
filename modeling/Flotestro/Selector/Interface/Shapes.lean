import Flotestro.Selector.Interface.Sql
import Flotestro.Selector.Model.Validate

/-!
# Validated expressions, and what a condition takes from them

`WellShaped` is what validation says of every node and expansion keeps: one condition in a node, and
a value that its fact allows.  `argumentsOf` are the values the conditions read, in order.  `Alike`
relates expressions that differ in values only, where the values name conditions of the same text.
-/

set_option autoImplicit false

namespace Flotestro.Selector

open Library

mutual

/-- Every node sets one field, to a value that the field allows. -/
def WellShaped : Expression → Prop
  | .node all any not leaf =>
    setFields all any not leaf = 1 ∧ (∀ f, leaf f ≠ [] → valueOk f (leaf f) = true) ∧
      WellShapedList all ∧ WellShapedList any ∧ WellShapedOption not

def WellShapedList : List Expression → Prop
  | [] => True
  | e :: es => WellShaped e ∧ WellShapedList es

def WellShapedOption : Option Expression → Prop
  | none => True
  | some e => WellShaped e

end

section

variable (P : Field → Str → Prop)

mutual

/-- What holds of every value that is set. -/
def Everywhere : Expression → Prop
  | .node all any not leaf =>
    (∀ f, leaf f ≠ [] → P f (leaf f)) ∧ EverywhereList all ∧ EverywhereList any ∧ EverywhereOption not

def EverywhereList : List Expression → Prop
  | [] => True
  | e :: es => Everywhere e ∧ EverywhereList es

def EverywhereOption : Option Expression → Prop
  | none => True
  | some e => Everywhere e

end

end

/-- The value a fact's condition reads: a tag as a list of one, of a version comparison the
version; the facts that are true or false are told by the text. -/
def argumentsOfFact (field : Field) (value : Str) : List Arg :=
  match field with
  | .securityUpdates | .rebootRequired | .failedUnits | .group => []
  | .tag => [.texts [value]]
  | .agentVersion => (parseVersionComparison value).toList.map fun c => .text c.version
  | _ => [.text value]

mutual

/-- The values the conditions of an expression read, in order. -/
def argumentsOf : Expression → List Arg
  | .node all any not leaf =>
    if !all.isEmpty then argumentsOfList all
    else if !any.isEmpty then argumentsOfList any
    else argumentsOfNot ((factOf leaf).toList.flatMap fun f => argumentsOfFact f (leaf f)) not

def argumentsOfList : List Expression → List Arg
  | [] => []
  | e :: es => argumentsOf e ++ argumentsOfList es

def argumentsOfNot (otherwise : List Arg) : Option Expression → List Arg
  | none => otherwise
  | some e => argumentsOf e

end

/-- Two values of a field that name conditions of the same text: both or neither is set;
what is true or false keeps its value, a version comparison its operator, and a relay is named by
identifier in both or in neither. -/
def SameText (identifier : Str → Bool) (field : Field) (value value' : Str) : Prop :=
  (value = [] ↔ value' = []) ∧
    match field with
    | .securityUpdates | .rebootRequired | .failedUnits => value = value'
    | .agentVersion => (parseVersionComparison value).map VersionComparison.operator =
        (parseVersionComparison value').map VersionComparison.operator
    | .relay => identifier value = identifier value'
    | _ => True

section

variable (identifier : Str → Bool)

mutual

def Alike : Expression → Expression → Prop
  | .node all any not leaf, .node all' any' not' leaf' =>
    AlikeList all all' ∧ AlikeList any any' ∧ AlikeOption not not' ∧
      ∀ f, SameText identifier f (leaf f) (leaf' f)

def AlikeList : List Expression → List Expression → Prop
  | [], [] => True
  | e :: es, e' :: es' => Alike e e' ∧ AlikeList es es'
  | _, _ => False

def AlikeOption : Option Expression → Option Expression → Prop
  | none, none => True
  | some e, some e' => Alike e e'
  | _, _ => False

end

end

end Flotestro.Selector
