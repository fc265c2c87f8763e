import Flotestro.Library.Bytes

/-!
# Selector expressions, and the expansion of their group references

A node of a selector names one condition: a combinator over other nodes or a fact of a host.  The type
holds every field of a node, as the source's does.

A reference to a static group becomes a test of membership, one to a dynamic group the expansion of
its selector.  The recursion through groups is bounded by the length of the chain: `levels` is
`maxExpansion` less the groups of the chain (`expandGroup_eq`).
-/

set_option autoImplicit false

namespace Flotestro.Selector

abbrev Str := Library.Bytes

/-- The leaf fields of a node, in the order of the compiler.  SOURCE: selector.go:18-61 -/
inductive Field where
  | site | environment | osFamily | tag | capability | connectionState | lifecycleState | owner
  | channel | osVersion | securityUpdates | rebootRequired | failedUnits | agentVersion | relay
  | failureDomain | memberOf | group
  deriving DecidableEq

/-- SOURCE: selector.go:14-61 -/
inductive Expression where
  | node (all any : List Expression) (not : Option Expression) (leaf : Field → Str)

namespace Expression

def all : Expression → List Expression
  | .node all _ _ _ => all

def any : Expression → List Expression
  | .node _ any _ _ => any

def not : Expression → Option Expression
  | .node _ _ not _ => not

def leaf : Expression → Field → Str
  | .node _ _ _ leaf => leaf

def fact (field : Field) (value : Str) : Expression :=
  .node [] [] none fun f => if f = field then value else []

end Expression

/-- SOURCE: selector.go:63-72 -/
def maxDepth : Nat := 8
def maxNodes : Nat := 64
def maxExpansion : Nat := 4
def maxValue : Nat := 128

mutual

/-- SOURCE: selector.go:328-342 -/
def Expression.count : Expression → Nat
  | .node all any not _ => 1 + countList all + countList any + countOption not

def countList : List Expression → Nat
  | [] => 0
  | e :: es => e.count + countList es

def countOption : Option Expression → Nat
  | none => 0
  | some e => e.count

end

/-- SOURCE: selector.go:292-298 -/
inductive Kind where
  | static | dynamic
  | other (kind : Str)

/-- A saved group; its identifier is the key of its row.  SOURCE: selector.go:283-290 -/
structure Group where
  id : Str
  id_ne : id ≠ []
  name : Str
  kind : Kind
  selector : Option Expression

/-- The ways an expansion fails.  SOURCE: selector.go:128-139, selector.go:306-423 -/
inductive Error where
  /-- invalid selector: the selector is empty -/
  | empty
  /-- invalid selector: the expanded selector has more than 64 conditions -/
  | tooMany
  /-- invalid selector: the expanded selector has so many conditions, more than 64 -/
  | tooManyExpanded (total : Nat)
  /-- unknown group -/
  | unknownGroup (ref : Str)
  /-- the group refers to itself -/
  | cycle (name : Str)
  /-- invalid selector: the dynamic group has no selector -/
  | noSelector (name : Str)
  /-- invalid selector: groups nested deeper than 4 levels -/
  | tooDeep (name : Str)
  /-- invalid selector: the group has an unknown kind -/
  | unknownKind (name kind : Str)
  /-- the error of a lookup -/
  | lookup (message : Str)

/-- The directory of groups; there may be none.  SOURCE: selector.go:300-304 -/
abbrev Groups := Option (Str → Except Error (Option Group))

/-- SOURCE: selector.go:415-423 -/
def countNode (nodes : Nat) : Except Error Nat :=
  if nodes + 1 > maxNodes then .error .tooMany else .ok (nodes + 1)

/-- A node that is no reference is counted.  SOURCE: selector.go:346-350 -/
def enterNode (leaf : Field → Str) (nodes : Nat) : Except Error Nat :=
  if leaf .group = [] then countNode nodes else .ok nodes

section

variable (expandRef : Str → Nat → Except Error (Expression × Nat))

mutual

/-- The copy of a node, with `nodes` counted so far; a reference is left to `expandRef`.
SOURCE: selector.go:344-376 -/
def expandNode : Expression → Nat → Except Error (Expression × Nat)
  | .node all any not leaf, nodes => do
    let nodes ← enterNode leaf nodes
    let (all', nodes) ← expandList all nodes
    let (any', nodes) ← expandList any nodes
    let (not', nodes) ← expandOption not nodes
    if leaf .group = [] then pure (.node all' any' not' leaf, nodes)
    else expandRef (leaf .group) nodes

def expandList : List Expression → Nat → Except Error (List Expression × Nat)
  | [], nodes => pure ([], nodes)
  | e :: es, nodes => do
    let (child, nodes) ← expandNode e nodes
    let (children, nodes) ← expandList es nodes
    pure (child :: children, nodes)

def expandOption : Option Expression → Nat → Except Error (Option Expression × Nat)
  | none, nodes => pure (none, nodes)
  | some e, nodes => do
    let (child, nodes) ← expandNode e nodes
    pure (some child, nodes)

end

end

def Groups.find (groups : Groups) (ref : Str) : Except Error Group :=
  match groups with
  | none => .error (.unknownGroup ref)
  | some lookup =>
    match lookup ref with
    | .error e => .error e
    | .ok none => .error (.unknownGroup ref)
    | .ok (some group) => .ok group

/-- A reference under a chain of groups.  SOURCE: selector.go:378-413 -/
def expandGroup (groups : Groups) :
    Nat → List Str → Str → Nat → Except Error (Expression × Nat)
  | levels, chain, ref, nodes =>
    match groups.find ref with
    | .error e => .error e
    | .ok group =>
      if chain.contains group.id then .error (.cycle group.name)
      else
        match group.kind with
        | .static =>
          match countNode nodes with
          | .error e => .error e
          | .ok nodes => .ok (.fact .memberOf group.id, nodes)
        | .dynamic =>
          match group.selector, levels with
          | none, _ => .error (.noSelector group.name)
          | some _, 0 => .error (.tooDeep group.name)
          | some selector, levels + 1 =>
            expandNode (expandGroup groups levels (chain ++ [group.id])) selector nodes
        | .other kind => .error (.unknownKind group.name kind)

/-- SOURCE: selector.go:344-413 -/
def expand (groups : Groups) (e : Expression) (chain : List Str) (nodes : Nat) :
    Except Error (Expression × Nat) :=
  expandNode (expandGroup groups (maxExpansion - chain.length) chain) e nodes

/-- SOURCE: selector.go:306-326 -/
def expandSelector (groups : Groups) (e : Option Expression) : Except Error Expression :=
  match e with
  | none => .error .empty
  | some e =>
    match expand groups e [] 0 with
    | .error err => .error err
    | .ok (expanded, _) =>
      if expanded.count > maxNodes then .error (.tooManyExpanded expanded.count) else .ok expanded

end Flotestro.Selector
