import Flotestro.Selector.Interface.Meaning
import Flotestro.Selector.Model.Compile

/-!
# Reading a condition back

The text of a compiled condition, read as a formula: conditions of the compiler's table, combined by
`not`, `and`, `or` and parentheses with the precedence SQL gives them.  A formula is evaluated over a
row of the hosts without nulls, the tables its conditions look into, and the arguments of the query.
A cast that fails raises an error, and nothing says in which order the parts of a condition are
evaluated, so an error of a part is one of the whole.
-/

set_option autoImplicit false

namespace Flotestro.Selector

open Library

/-- A column that is compared with its value. -/
inductive Column where
  | site | environment | osFamily | connectionState | lifecycleState | owner | channel
  | failureDomain
  deriving DecidableEq

/-- The conditions over a host. -/
inductive Atom where
  | column (c : Column)
  | tags
  | capability
  | osVersion
  | securityUpdates (pending : Bool)
  | rebootRequired (required : Bool)
  | failedUnits (failed : Bool)
  | agentVersion (o : Operator)
  | relayId
  | relayName
  | memberOf
  deriving DecidableEq

/-- A condition, read with its placeholder where it has one. -/
inductive Formula where
  | atom (a : Atom) (placeholder : Option Nat)
  | not (f : Formula)
  | and (f g : Formula)
  | or (f g : Formula)

/-- The placeholders in the order of the text. -/
def Formula.placeholders : Formula → List Nat
  | .atom _ k => k.toList
  | .not f => f.placeholders
  | .and f g => f.placeholders ++ g.placeholders
  | .or f g => f.placeholders ++ g.placeholders

/-! ## The reader -/

def Column.template : Column → Template
  | .site => .site
  | .environment => .environment
  | .osFamily => .osFamily
  | .connectionState => .connectionState
  | .lifecycleState => .lifecycleState
  | .owner => .owner
  | .channel => .channel
  | .failureDomain => .failureDomain

namespace Atom

/-- The condition around its placeholder, for a condition that has one. -/
def template : Atom → Option Template
  | .column c => some c.template
  | .tags => some .tag
  | .capability => some .capability
  | .osVersion => some .osVersion
  | .agentVersion o => some (.agentVersion o)
  | .relayId => some .relayId
  | .relayName => some .relayName
  | .memberOf => some .memberOf
  | .securityUpdates _ | .rebootRequired _ | .failedUnits _ => none

/-- The text a condition begins with, the whole of it where it has no placeholder. -/
def before : Atom → Str
  | .securityUpdates true => ascii "h.pending_security_updates > 0".toList
  | .securityUpdates false => ascii "h.pending_security_updates = 0".toList
  | .rebootRequired true => ascii "h.reboot_required = true".toList
  | .rebootRequired false => ascii "h.reboot_required = false".toList
  | .failedUnits true => ascii "h.failed_units > 0".toList
  | .failedUnits false => ascii "h.failed_units = 0".toList
  | a => (a.template.map Template.before).getD []

def all : List Atom :=
  [.column .site, .column .environment, .column .osFamily, .column .connectionState,
    .column .lifecycleState, .column .owner, .column .channel, .column .failureDomain, .tags,
    .capability, .osVersion, .securityUpdates true, .securityUpdates false, .rebootRequired true,
    .rebootRequired false, .failedUnits true, .failedUnits false, .agentVersion .le,
    .agentVersion .ge, .agentVersion .lt, .agentVersion .gt, .agentVersion .eq, .relayId, .relayName,
    .memberOf]

end Atom

def strip : Str → Str → Option Str
  | [], s => some s
  | _ :: _, [] => none
  | a :: as, b :: bs => if a = b then strip as bs else none

/-- A placeholder and the end of its condition. -/
def readPlaceholder (a : Atom) (after s : Str) : Option (Formula × Str) :=
  (strip [36] s).bind fun s =>
    (parseDecimal (s.takeWhile isDigit)).bind fun k =>
      (strip after (s.dropWhile isDigit)).map fun rest => (.atom a (some k), rest)

def readOne (a : Atom) (s : Str) : Option (Formula × Str) :=
  (strip a.before s).bind fun s =>
    match a.template with
    | none => some (.atom a none, s)
    | some t => readPlaceholder a t.after s

def readAtom (s : Str) : Option (Formula × Str) := Atom.all.findSome? fun a => readOne a s

def notText : Str := ascii "not ".toList
def andText : Str := ascii " and ".toList
def orText : Str := ascii " or ".toList

mutual

/-- A negation, a condition or a formula in parentheses. -/
def readNot : Nat → Str → Option (Formula × Str)
  | 0, _ => none
  | n + 1, s =>
    match strip notText s with
    | some s => (readNot n s).map fun r => (.not r.1, r.2)
    | none =>
      match readAtom s with
      | some r => some r
      | none =>
        match strip [40] s with
        | none => none
        | some s => (readOr n s).bind fun r => (strip [41] r.2).map fun s => (r.1, s)

def readAnd : Nat → Str → Option (Formula × Str)
  | 0, _ => none
  | n + 1, s =>
    (readNot n s).bind fun r =>
      match strip andText r.2 with
      | none => some r
      | some s => (readAnd n s).map fun r' => (.and r.1 r'.1, r'.2)

def readOr : Nat → Str → Option (Formula × Str)
  | 0, _ => none
  | n + 1, s =>
    (readAnd n s).bind fun r =>
      match strip orText r.2 with
      | none => some r
      | some s => (readOr n s).map fun r' => (.or r.1 r'.1, r'.2)

end

/-- A row of the hosts; `agentVersion` has the numbers the reported version begins with,
where it begins with any. -/
structure Row where
  id : Str
  column : Column → Str
  tags : List Str
  osVersion : Str
  pendingSecurityUpdates : Nat
  rebootRequired : Bool
  failedUnits : Nat
  agentVersion : Option (List Nat)

/-- A row of `host_capability_registry`. -/
structure Capability where
  hostId : Str
  name : Str
  available : Bool

/-- A row of `agent_sessions`. -/
structure Session (ι : Type) where
  hostId : Str
  ended : Bool
  relayId : Option ι

structure Relay (ι : Type) where
  id : ι
  name : Str

/-- A row of `host_group_members`. -/
structure Member (ι : Type) where
  groupId : ι
  hostId : Str

structure Tables (ι : Type) where
  registry : List Capability
  sessions : List (Session ι)
  relays : List (Relay ι)
  members : List (Member ι)

def numbers (version : Str) : List Nat :=
  (versionParts version).map fun part => (parseDecimal part).getD 0

/-- Versions are ordered part by part. -/
def Operator.holds : Operator → List Nat → List Nat → Bool
  | .le, a, b => a ≤ b
  | .ge, a, b => b ≤ a
  | .lt, a, b => a < b
  | .gt, a, b => b < a
  | .eq, a, b => a = b

/-- Every part of a version fits `int4`. -/
def fitsInt4 (parts : List Nat) : Bool := parts.all fun n => n < 2 ^ 31

/-- The parts of a version under `::int[]`. -/
def toInt4 (parts : List Nat) : Option (List Nat) := if fitsInt4 parts then some parts else none

/-- The version a host reports can be cast. -/
def Row.fits (h : Row) : Bool := h.agentVersion.all fitsInt4

section

variable {ι : Type} [DecidableEq ι] (db : Tables ι) (h : Row)

/-- A session of the host is open, by a route of which `p` holds. -/
def connects (p : Option ι → Bool) : Bool :=
  db.sessions.any fun s => s.hostId = h.id && !s.ended && p s.relayId

section

-- what `::uuid` reads
variable (uuid : Str → Option ι)

/-- A condition with a text for its placeholder. -/
def Atom.holdsText : Atom → Str → Option Bool
  | .column c, v => some (h.column c = v)
  | .capability, v => some (db.registry.any fun r => r.hostId = h.id && r.name = v && r.available)
  | .osVersion, v => some (v.isPrefixOf h.osVersion)
  | .agentVersion o, v =>
    (toInt4 (numbers v)).bind fun numbers =>
      match h.agentVersion with
      | none => some false
      | some parts => (toInt4 parts).map fun parts => o.holds parts numbers
  | .relayId, v => (uuid v).map fun id => connects db h fun relay => relay = some id
  | .relayName, v =>
    some (connects db h fun relay => db.relays.any fun r => relay = some r.id && r.name = v)
  | .memberOf, v => (uuid v).map fun id => db.members.any fun m => m.groupId = id && m.hostId = h.id
  | _, _ => none

/-- A condition, with the argument of its placeholder. -/
def Atom.holds : Atom → Option Arg → Option Bool
  | .securityUpdates pending, none =>
    some (if pending then 0 < h.pendingSecurityUpdates else h.pendingSecurityUpdates = 0)
  | .rebootRequired required, none => some (h.rebootRequired = required)
  | .failedUnits failed, none => some (if failed then 0 < h.failedUnits else h.failedUnits = 0)
  | .tags, some (.texts vs) => some (vs.all fun v => h.tags.contains v)
  | a, some (.text v) => a.holdsText db h uuid v
  | _, _ => none

/-- A formula; placeholder `offset + k` stands for the `k`-th argument. -/
def Formula.eval (offset : Nat) (args : List Arg) : Formula → Option Bool
  | .atom a none => a.holds db h uuid none
  | .atom a (some k) => args[k - (offset + 1)]?.bind fun value => a.holds db h uuid (some value)
  | .not f => (f.eval offset args).map (!·)
  | .and f g => (f.eval offset args).bind fun a => (g.eval offset args).map fun b => a && b
  | .or f g => (f.eval offset args).bind fun a => (g.eval offset args).map fun b => a || b

end

-- what `uuid.Parse` reads
variable (identify : Str → Option ι)

/-- What the facts of a selector mean for a host.  SOURCE: selector.go:14-61 -/
def answers : Host
  | .site, v => h.column .site = v
  | .environment, v => h.column .environment = v
  | .osFamily, v => h.column .osFamily = v
  | .tag, v => h.tags.contains v
  | .capability, v => db.registry.any fun r => r.hostId = h.id && r.name = v && r.available
  | .connectionState, v => h.column .connectionState = v
  | .lifecycleState, v => h.column .lifecycleState = v
  | .owner, v => h.column .owner = v
  | .channel, v => h.column .channel = v
  | .osVersion, v => v.isPrefixOf h.osVersion
  | .securityUpdates, v => decide (0 < h.pendingSecurityUpdates) = decide (v = ascii "true".toList)
  | .rebootRequired, v => h.rebootRequired = decide (v = ascii "true".toList)
  | .failedUnits, v => decide (0 < h.failedUnits) = decide (v = ascii "true".toList)
  | .agentVersion, v =>
    match parseVersionComparison v, h.agentVersion with
    | some c, some parts => c.operator.holds parts (numbers c.version)
    | _, _ => false
  | .relay, v =>
    match identify v with
    | some id => connects db h fun relay => relay = some id
    | none => connects db h fun relay => db.relays.any fun r => relay = some r.id && r.name = v
  | .failureDomain, v => h.column .failureDomain = v
  | .memberOf, v => db.members.any fun m => identify v = some m.groupId && m.hostId = h.id
  | .group, _ => false

/-- A value that a cast reads as it is meant: the parts of a version fit, and an identifier is one for
both readers. -/
def Taken (uuid : Str → Option ι) : Field → Str → Prop
  | .agentVersion, v => ∀ c, parseVersionComparison v = some c → fitsInt4 (numbers c.version) = true
  | .relay, v => (identify v).isSome = true → uuid v = identify v
  | .memberOf, v => (identify v).isSome = true ∧ uuid v = identify v
  | _, _ => True

end

end Flotestro.Selector
