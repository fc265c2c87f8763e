import Flotestro.Selector.Model.Expand
import Flotestro.Library.Decimal
import Flotestro.Library.Space

/-!
# Compilation to SQL

An expanded selector becomes a condition over a row `h` of the hosts, with placeholders for the
values.  The compiler goes through the expression once and carries the arguments so far; a placeholder
is numbered by its argument.  `identifier` says whether a string parses as an identifier.
-/

set_option autoImplicit false

namespace Flotestro.Selector

open Library

/-- SOURCE: selector.go:90-92 -/
inductive Operator where
  | le | ge | lt | gt | eq
  deriving DecidableEq

def Operator.text : Operator → Str
  | .le => ascii "<=".toList
  | .ge => ascii ">=".toList
  | .lt => ascii "<".toList
  | .gt => ascii ">".toList
  | .eq => ascii "=".toList

def versionOperators : List Operator := [.le, .ge, .lt, .gt, .eq]

/-- SOURCE: selector.go:94-99 -/
structure VersionComparison where
  operator : Operator
  version : Str

def isDigit (b : UInt8) : Bool := 48 ≤ b && b ≤ 57

def versionParts (version : Str) : List Str := version.splitOn 46

/-- The version without its `v`, if it has up to four numeric parts.
SOURCE: selector.go:86-88 -/
def matchVersion (text : Str) : Option Str :=
  let version := if text.head? = some 118 then text.tail else text
  if (versionParts version).length ≤ 4 ∧
      (versionParts version).all (fun part => !part.isEmpty && part.all isDigit) then some version
  else none

/-- The operator a text begins with and what follows it; equality where there is none. -/
def splitOperator (text : Str) : Operator × Str :=
  match versionOperators.find? fun o => o.text.isPrefixOf text with
  | some o => (o, trimSpace (text.drop o.text.length))
  | none => (.eq, text)

/-- SOURCE: selector.go:107-126 -/
def parseVersionComparison (value : Str) : Option VersionComparison :=
  let (operator, text) := splitOperator (trimSpace value)
  (matchVersion text).map fun version => ⟨operator, version⟩

/-- An argument of the query. -/
inductive Arg where
  | text (value : Str)
  | texts (values : List Str)
  deriving DecidableEq

/-- The text of a condition around its placeholder. -/
structure Template where
  before : Str
  after : Str

/-- A column of the hosts compared with its value. -/
def column (name : List Char) : Template := ⟨ascii "h.".toList ++ ascii name ++ ascii " = ".toList, []⟩

/-- SOURCE: selector.go:530-534 -/
def versionPartsOf (row : List Char) : Str :=
  ascii "string_to_array(substring(".toList ++ ascii row ++
    ascii ".agent_version from '^v?(\\d+(?:\\.\\d+)*)'), '.')::int[]".toList

namespace Template

def site := column "site".toList
def environment := column "environment".toList
def osFamily := column "os_family".toList
def connectionState := column "connection_state".toList
def lifecycleState := column "lifecycle_state".toList
def owner := column "owner".toList
def channel := column "release_channel".toList
def failureDomain := column "failure_domain".toList

/-- SOURCE: selector.go:468-471 -/
def tag : Template := ⟨ascii "h.tags @> ".toList, ascii "::text[]".toList⟩

/-- SOURCE: selector.go:472-474 -/
def capability : Template :=
  ⟨ascii "exists (select 1 from host_capability_registry r".toList ++
      ascii " where r.host_id = h.id and r.name = ".toList, ascii " and r.available)".toList⟩

def osVersion : Template := ⟨ascii "starts_with(h.os_version, ".toList, ascii ")".toList⟩

/-- SOURCE: selector.go:499-508 -/
def agentVersion (o : Operator) : Template :=
  ⟨ascii "(h.agent_version ~ '^v?\\d+(\\.\\d+)*' and ".toList ++ versionPartsOf "h".toList ++
      ascii " ".toList ++ o.text ++ ascii " string_to_array(".toList,
    ascii ", '.')::int[])".toList⟩

/-- SOURCE: selector.go:509-514 -/
def relayId : Template :=
  ⟨ascii "exists (select 1 from agent_sessions s".toList ++
      ascii " where s.host_id = h.id and s.ended_at is null and s.relay_id = ".toList,
    ascii "::uuid)".toList⟩

/-- SOURCE: selector.go:516-517 -/
def relayName : Template :=
  ⟨ascii "exists (select 1 from agent_sessions s join relays r on r.id = s.relay_id".toList ++
      ascii " where s.host_id = h.id and s.ended_at is null and r.name = ".toList,
    ascii ")".toList⟩

/-- SOURCE: selector.go:520-522 -/
def memberOf : Template :=
  ⟨ascii "exists (select 1 from host_group_members m".toList ++ ascii " where m.group_id = ".toList,
    ascii "::uuid and m.host_id = h.id)".toList⟩

end Template

/-- SOURCE: selector.go:128-139, selector.go:428-430, selector.go:523-526 -/
inductive CompileError where
  | empty
  | unexpanded (ref : Str)
  | noCondition
  | badVersion (value : Str)

/-- What the compiler has so far: the text and the arguments. -/
abbrev Compiled := Except CompileError (Str × List Arg)

section

variable (identifier : Str → Bool) (offset : Nat)

/-- A condition with its value recorded as an argument.  SOURCE: selector.go:444-448 -/
def param (t : Template) (value : Arg) (args : List Arg) : Compiled :=
  .ok (t.before ++ 36 :: decimal (offset + (args.length + 1)) ++ t.after, args ++ [value])

/-- The condition of one fact.  SOURCE: selector.go:462-524 -/
def compileFact (field : Field) (value : Str) (args : List Arg) : Compiled :=
  match field with
  | .site => param offset .site (.text value) args
  | .environment => param offset .environment (.text value) args
  | .osFamily => param offset .osFamily (.text value) args
  | .tag => param offset .tag (.texts [value]) args
  | .capability => param offset .capability (.text value) args
  | .connectionState => param offset .connectionState (.text value) args
  | .lifecycleState => param offset .lifecycleState (.text value) args
  | .owner => param offset .owner (.text value) args
  | .channel => param offset .channel (.text value) args
  | .osVersion => param offset .osVersion (.text value) args
  | .securityUpdates =>
    if value = ascii "true".toList then .ok (ascii "h.pending_security_updates > 0".toList, args)
    else .ok (ascii "h.pending_security_updates = 0".toList, args)
  | .rebootRequired => .ok (ascii "h.reboot_required = ".toList ++ value, args)
  | .failedUnits =>
    if value = ascii "true".toList then .ok (ascii "h.failed_units > 0".toList, args)
    else .ok (ascii "h.failed_units = 0".toList, args)
  | .agentVersion =>
    match parseVersionComparison value with
    | none => .error (.badVersion value)
    | some comparison =>
      param offset (.agentVersion comparison.operator) (.text comparison.version) args
  | .relay =>
    if identifier value then param offset .relayId (.text value) args
    else param offset .relayName (.text value) args
  | .failureDomain => param offset .failureDomain (.text value) args
  | .memberOf => param offset .memberOf (.text value) args
  | .group => .error (.unexpanded value)

/-- The facts in the order of the compiler, a reference last.
SOURCE: selector.go:462-527 -/
def compileOrder : List Field :=
  [.site, .environment, .osFamily, .tag, .capability, .connectionState, .lifecycleState, .owner,
    .channel, .osVersion, .securityUpdates, .rebootRequired, .failedUnits, .agentVersion, .relay,
    .failureDomain, .memberOf, .group]

/-- The facts of a node without other conditions. -/
def compileLeaf (leaf : Field → Str) (args : List Arg) : Compiled :=
  match compileOrder.find? fun f => leaf f ≠ [] with
  | some field => compileFact identifier offset field (leaf field) args
  | none => .error .noCondition

def joinTexts (operator : Str) : List Str → Str
  | [] => []
  | [text] => text
  | text :: text' :: texts => text ++ operator ++ joinTexts operator (text' :: texts)

/-- The end of a combinator.  SOURCE: selector.go:536-546 -/
def parenthesize (operator : List Char) (r : List Str × List Arg) : Str × List Arg :=
  (40 :: joinTexts (ascii operator) r.1 ++ [41], r.2)

mutual

/-- SOURCE: selector.go:450-528 -/
def compileNode : Expression → List Arg → Compiled
  | .node all any not leaf, args =>
    if !all.isEmpty then parenthesize " and ".toList <$> compileList all args
    else if !any.isEmpty then parenthesize " or ".toList <$> compileList any args
    else compileNot leaf not args

def compileList : List Expression → List Arg → Except CompileError (List Str × List Arg)
  | [], args => .ok ([], args)
  | e :: es, args => do
    let (part, args) ← compileNode e args
    let (parts, args) ← compileList es args
    pure (part :: parts, args)

/-- A negation, or the fact of a node without one. -/
def compileNot (leaf : Field → Str) : Option Expression → List Arg → Compiled
  | none, args => compileLeaf identifier offset leaf args
  | some e, args => do
    let (inner, args) ← compileNode e args
    pure (ascii "not ".toList ++ inner, args)

end

end

end Flotestro.Selector
