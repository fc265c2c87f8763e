import Flotestro.Selector.Model.Compile

/-!
# Validation

The check of a selector as it arrives from a client: the depth, the number of conditions, one
condition in every node, and the values of its facts.  `at_` is where the node stands.
-/

set_option autoImplicit false

namespace Flotestro.Selector

open Library

/-- SOURCE: selector.go:249-272 -/
def leaves : List Field :=
  [.site, .environment, .osFamily, .tag, .group, .capability, .connectionState, .lifecycleState,
    .owner, .channel, .osVersion, .securityUpdates, .rebootRequired, .failedUnits, .agentVersion,
    .relay, .failureDomain, .memberOf]

/-- Why a selector is refused, with the place.  SOURCE: selector.go:141-241 -/
inductive Invalid where
  /-- the selector is empty -/
  | empty
  /-- nested deeper than 8 levels -/
  | tooDeep (at_ : Str)
  /-- more than 64 conditions -/
  | tooMany
  /-- names a group by internal identifier -/
  | internalGroup (at_ : Str)
  /-- names no condition -/
  | noCondition (at_ : Str)
  /-- sets more than one field -/
  | manyConditions (at_ : Str)
  /-- longer than 128 characters -/
  | tooLong (at_ : Str) (field : Field)
  /-- has surrounding whitespace -/
  | whitespace (at_ : Str) (field : Field)
  /-- is not a tag, is not one of the values, is not a version comparison -/
  | value (at_ : Str) (field : Field) (value : Str)

def isLower (b : UInt8) : Bool := 97 ≤ b && b ≤ 122
def isUpper (b : UInt8) : Bool := 65 ≤ b && b ≤ 90

def isKeyByte (b : UInt8) : Bool :=
  isLower b || isDigit b || (ascii "_.-".toList).contains b

def isValueByte (b : UInt8) : Bool :=
  isLower b || isUpper b || isDigit b || (ascii "_.:/-".toList).contains b

/-- A key, or a key and a value.  SOURCE: selector.go:74-76 -/
def isTag (value : Str) : Bool :=
  let key := value.takeWhile (· ≠ 61)
  (match key with
    | [] => false
    | b :: bs => (isLower b || isDigit b) && bs.all isKeyByte) &&
    match value.dropWhile (· ≠ 61) with
    | [] => true
    | _ :: rest => !rest.isEmpty && rest.all isValueByte

/-- SOURCE: selector.go:78-84 -/
def connectionStates : List Str :=
  ["online", "offline", "stale", "unknown"].map fun s => ascii s.toList

def lifecycleStates : List Str :=
  ["active", "quarantined", "recovery", "retiring", "retired"].map fun s => ascii s.toList

def releaseChannels : List Str := ["stable", "beta"].map fun s => ascii s.toList

def booleans : List Str := ["true", "false"].map fun s => ascii s.toList

/-- The check of one kind of fact.  SOURCE: selector.go:209-238 -/
def valueOk : Field → Str → Bool
  | .tag, v => isTag v
  | .connectionState, v => connectionStates.contains v
  | .lifecycleState, v => lifecycleStates.contains v
  | .channel, v => releaseChannels.contains v
  | .securityUpdates, v | .rebootRequired, v | .failedUnits, v => booleans.contains v
  | .agentVersion, v => (parseVersionComparison v).isSome
  | _, _ => true

/-- SOURCE: selector.go:199-239 -/
def checkLeaf (leaf : Field → Str) (at_ : Str) (field : Field) : Except Invalid Unit :=
  if leaf field = [] then .ok ()
  else if (leaf field).length > maxValue then .error (.tooLong at_ field)
  else if trimSpace (leaf field) ≠ leaf field then .error (.whitespace at_ field)
  else if valueOk field (leaf field) then .ok ()
  else .error (.value at_ field (leaf field))

def checkLeaves (leaf : Field → Str) (at_ : Str) : List Field → Except Invalid Unit
  | [] => .ok ()
  | field :: fields => do
    checkLeaf leaf at_ field
    checkLeaves leaf at_ fields

/-- How many fields a node sets.  SOURCE: selector.go:162-176 -/
def setFields (all any : List Expression) (not : Option Expression) (leaf : Field → Str) : Nat :=
  (if all.isEmpty then 0 else 1) + (if any.isEmpty then 0 else 1) + (if not.isSome then 1 else 0) +
    leaves.countP fun f => leaf f ≠ []

/-- The checks before the children; the count with the node.  SOURCE: selector.go:151-182 -/
def enter (all any : List Expression) (not : Option Expression) (leaf : Field → Str)
    (depth nodes : Nat) (at_ : Str) : Except Invalid Nat :=
  if depth > maxDepth then .error (.tooDeep at_)
  else if nodes + 1 > maxNodes then .error .tooMany
  else if leaf .memberOf ≠ [] then .error (.internalGroup at_)
  else if setFields all any not leaf = 0 then .error (.noCondition at_)
  else if setFields all any not leaf > 1 then .error (.manyConditions at_)
  else .ok (nodes + 1)

def childAt (at_ : Str) (combinator : List Char) (i : Nat) : Str :=
  at_ ++ ascii combinator ++ 91 :: decimal i ++ [93]

mutual

/-- SOURCE: selector.go:150-241 -/
def validateNode : Expression → Nat → Nat → Str → Except Invalid Nat
  | .node all any not leaf, depth, nodes, at_ => do
    let nodes ← enter all any not leaf depth nodes at_
    let nodes ← validateList ".all".toList all 0 (depth + 1) nodes at_
    let nodes ← validateList ".any".toList any 0 (depth + 1) nodes at_
    let nodes ← validateOption not (depth + 1) nodes at_
    checkLeaves leaf at_ leaves
    pure nodes

def validateList (combinator : List Char) :
    List Expression → Nat → Nat → Nat → Str → Except Invalid Nat
  | [], _, _, nodes, _ => pure nodes
  | e :: es, i, depth, nodes, at_ => do
    let nodes ← validateNode e depth nodes (childAt at_ combinator i)
    validateList combinator es (i + 1) depth nodes at_

def validateOption : Option Expression → Nat → Nat → Str → Except Invalid Nat
  | none, _, nodes, _ => pure nodes
  | some e, depth, nodes, at_ => validateNode e depth nodes (at_ ++ ascii ".not".toList)

end

/-- SOURCE: selector.go:141-148 -/
def validate (e : Option Expression) : Except Invalid Unit :=
  match e with
  | none => .error .empty
  | some e => (fun _ => ()) <$> validateNode e 1 0 (ascii "selector".toList)

end Flotestro.Selector
