import Flotestro.Authz.Model.Scope

/-!
# Evaluating a condition

A condition over a row, as the database evaluates it: a comparison with a null is null, a row is shown
where the condition is true, and a query whose arguments the database does not take fails as a whole.
What the database takes as a text and how it reads and writes an identifier are parameters.
-/

set_option autoImplicit false

namespace Flotestro.Authz

open Library

/-- Texts and identifiers, as the database takes and writes them. -/
structure Database (ι : Type) where
  accepts : Str → Bool
  readUuid : Str → Option ι
  writeUuid : ι → Str
  readUuid_writeUuid : ∀ t, readUuid (writeUuid t) = some t

/-- A value of a row; `none` is null. -/
inductive Cell (ι : Type) where
  | text (value : Option Str)
  | uuid (value : Option ι)
  | texts (value : Option (List Str))

/-- A row, by the names of its columns. -/
abbrev Row (ι : Type) := Str → Option (Cell ι)

structure HostRow (ι : Type) where
  site : Str
  environment : Str
  team : Option ι
  owner : Option Str
  tags : Option (List Str)

section

variable {ι : Type} [DecidableEq ι] (db : Database ι)

/-- What a host is, for a scope to be held against.  SOURCE: hosts/teams.go:284-291 -/
def HostRow.target (host : HostRow ι) : Scope :=
  targetOf host.site host.environment ((host.team.map db.writeUuid).getD []) (host.owner.getD [])
    (host.tags.getD [])

def HostRow.row (table : Str) (host : HostRow ι) : Row ι := fun name =>
  if name = (hostColumns table).site then some (.text (some host.site))
  else if name = (hostColumns table).environment then some (.text (some host.environment))
  else if name = (hostColumns table).team then some (.uuid host.team)
  else if name = (hostColumns table).owner then some (.text host.owner)
  else if name = (hostColumns table).tags then some (.texts host.tags)
  else none

def argument (args : List Arg) (n : Nat) : Option Arg := args[n - 1]?

/-- The database takes the argument of a part as what the part compares with. -/
def Part.binds (args : List Arg) : Part → Bool
  | .never => true
  | .equals _ n =>
    match argument args n with
    | some (.text value) => db.accepts value
    | _ => false
  | .equalsUuid _ n =>
    match argument args n with
    | some (.text value) => (db.readUuid value).isSome
    | _ => false
  | .anyOf _ n | .overlaps _ n =>
    match argument args n with
    | some (.texts values) => values.all db.accepts
    | _ => false

/-- A part over a row; `none` is null. -/
def Part.value (row : Row ι) (args : List Arg) : Part → Option Bool
  | .never => some false
  | .equals column n =>
    match row column, argument args n with
    | some (.text (some cell)), some (.text value) => some (cell = value)
    | _, _ => none
  | .equalsUuid column n =>
    match row column, argument args n with
    | some (.uuid (some cell)), some (.text value) => some (some cell = db.readUuid value)
    | _, _ => none
  | .anyOf column n =>
    match row column, argument args n with
    | some (.text cell), some (.texts values) => some (values.contains (cell.getD []))
    | _, _ => none
  | .overlaps column n =>
    match row column, argument args n with
    | some (.texts cell), some (.texts values) => some ((cell.getD []).any values.contains)
    | _, _ => none

def sqlAnd : Option Bool → Option Bool → Option Bool
  | some false, _ => some false
  | _, some false => some false
  | some true, some true => some true
  | _, _ => none

def sqlOr : Option Bool → Option Bool → Option Bool
  | some true, _ => some true
  | _, some true => some true
  | some false, some false => some false
  | _, _ => none

/-- The parts of a scope, joined. -/
def conditionValue (row : Row ι) (args : List Arg) (parts : List Part) : Option Bool :=
  (parts.map (Part.value db row args)).foldr sqlAnd (some true)

/-- Whether a condition shows a row; `none` where the query fails. -/
def Clause.shows (row : Row ι) (args : List Arg) : Clause → Option Bool
  | .always => some true
  | .never => some false
  | .any conditions =>
    if conditions.all fun parts => parts.all (Part.binds db args) then
      some ((conditions.map (conditionValue db row args)).foldr sqlOr (some false) = some true)
    else none

end

end Flotestro.Authz
