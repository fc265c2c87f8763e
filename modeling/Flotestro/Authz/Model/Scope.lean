import Flotestro.Library.Decimal

/-!
# Scopes and the conditions of lists

A scope narrows a permission by five categories.  `matchesTarget` decides about one target; `scopeSQL`
builds the condition a list is filtered by, with placeholders for the values.  A condition is a
disjunction of the scopes and each scope a conjunction of parts; `Clause.text` is the text the source
writes for it.
-/

set_option autoImplicit false

namespace Flotestro.Authz

open Library

abbrev Str := Bytes

/-- SOURCE: model.go:709-722 -/
structure Scope where
  site : Str
  environment : Str
  team : Str
  teamAny : Bool
  owners : List Str
  tags : List Str

/-- SOURCE: model.go:725 -/
def wildcard : Str := ascii "*".toList

/-- SOURCE: model.go:782-788 -/
def targetOf (site environment team owner : Str) (tags : List Str) : Scope where
  site := site
  environment := environment
  team := team
  teamAny := false
  owners := if owner ≠ [] then [owner] else []
  tags := tags

/-- SOURCE: model.go:811-818 -/
def hasWildcard (values : List Str) : Bool := values.any fun value => value = wildcard

/-- SOURCE: model.go:902-907 -/
def matchesValue (granted target : Str) : Bool :=
  if granted = wildcard then true else granted ≠ [] && granted = target

/-- SOURCE: model.go:875-880 -/
def Scope.matchesTeam (s : Scope) (team : Str) : Bool :=
  if s.teamAny then true else s.team ≠ [] && s.team = team

/-- SOURCE: model.go:885-900 -/
def matchesAny (granted target : List Str) : Bool :=
  if granted.length = 0 then false
  else granted.any fun allowed => allowed = wildcard || target.any fun value => allowed = value

/-- SOURCE: model.go:796-802 -/
def Scope.matchesTarget (s target : Scope) : Bool :=
  matchesValue s.site target.site && matchesValue s.environment target.environment &&
    s.matchesTeam target.team && matchesAny s.owners target.owners && matchesAny s.tags target.tags

/-- SOURCE: model.go:806-809 -/
def Scope.covers (s : Scope) : Bool :=
  s.site = wildcard && s.environment = wildcard && s.teamAny && hasWildcard s.owners &&
    hasWildcard s.tags

/-- SOURCE: model.go:842-847 -/
def containsValue (granted other : Str) : Bool :=
  if granted = wildcard ∨ other = [] then true else granted = other

/-- SOURCE: model.go:833-838 -/
def Scope.containsTeam (s other : Scope) : Bool :=
  if s.teamAny then true else !other.teamAny && s.team ≠ [] && s.team = other.team

/-- SOURCE: model.go:851-870 -/
def containsAll (granted other : List Str) : Bool :=
  if hasWildcard granted then true
  else other.all fun value => value ≠ wildcard && granted.any fun v => v = value

/-- SOURCE: model.go:824-830 -/
def Scope.contains (s other : Scope) : Bool :=
  containsValue s.site other.site && containsValue s.environment other.environment &&
    s.containsTeam other && containsAll s.owners other.owners && containsAll s.tags other.tags

/-- The columns a query compares with; an empty name is a column it does not have.
SOURCE: model.go:1117-1123 -/
structure Columns where
  site : Str
  environment : Str
  team : Str
  owner : Str
  tags : Str

/-- SOURCE: model.go:1127-1135 -/
def hostColumns (table : Str) : Columns :=
  let dotted := if table ≠ [] then table ++ ascii ".".toList else table
  { site := dotted ++ ascii "site".toList
    environment := dotted ++ ascii "environment".toList
    team := dotted ++ ascii "team_id".toList
    owner := dotted ++ ascii "owner".toList
    tags := dotted ++ ascii "tags".toList }

/-- An argument of the query. -/
inductive Arg where
  | text (value : Str)
  | texts (values : List Str)

/-- One part of the condition of a scope. -/
inductive Part where
  | never
  | equals (column : Str) (n : Nat)
  | equalsUuid (column : Str) (n : Nat)
  | anyOf (column : Str) (n : Nat)
  | overlaps (column : Str) (n : Nat)

/-- A condition over a row; the empty one is `always`. -/
inductive Clause where
  | always
  | never
  | any (conditions : List (List Part))

/-- A part adds its arguments behind those there are. -/
abbrev Builder := List Arg → List Part × List Arg

def Builder.andThen (f g : Builder) : Builder := fun args =>
  ((f args).1 ++ (g (f args).2).1, (g (f args).2).2)

/-- A category with one value.  SOURCE: model.go:1162-1177 -/
def dimension (column value : Str) (offset : Nat) : Builder := fun args =>
  if value = wildcard then ([], args)
  else if value = [] ∨ column = [] then ([.never], args)
  else ([.equals column (offset + (args.length + 1))], args ++ [.text value])

/-- SOURCE: model.go:1181-1189 -/
def teamPart (column : Str) (s : Scope) (offset : Nat) : Builder := fun args =>
  if s.teamAny then ([], args)
  else if s.team = [] ∨ column = [] then ([.never], args)
  else ([.equalsUuid column (offset + (args.length + 1))], args ++ [.text s.team])

/-- The part of a list of alternatives and its arguments; `none` is the empty condition.
SOURCE: model.go:1218-1233 -/
def listSQL (column : Str) (values : List Str) (array : Bool) (offset : Nat) :
    Option (Part × List Arg) :=
  if hasWildcard values then none
  else if values.length = 0 ∨ column = [] then some (.never, [])
  else if array then some (.overlaps column (offset + 1), [.texts values])
  else some (.anyOf column (offset + 1), [.texts values])

/-- SOURCE: model.go:1190-1201 -/
def listPart (column : Str) (values : List Str) (array : Bool) (offset : Nat) : Builder := fun args =>
  match listSQL column values array (offset + args.length) with
  | none => ([], args)
  | some (part, used) => ([part], args ++ used)

/-- The parts of one scope.  SOURCE: model.go:1161-1201 -/
def scopeParts (s : Scope) (columns : Columns) (offset : Nat) : Builder :=
  (dimension columns.site s.site offset).andThen <|
    (dimension columns.environment s.environment offset).andThen <|
      (teamPart columns.team s offset).andThen <|
        (listPart columns.owner s.owners false offset).andThen <|
          listPart columns.tags s.tags true offset

/-- The scopes one by one, with what was built of them before.
SOURCE: model.go:1155-1212 -/
def scopeConditions (columns : Columns) (offset : Nat) :
    List Scope → List (List Part) → List Arg → Clause × List Arg
  | [], conditions, args => (.any conditions, args)
  | s :: scopes, conditions, args =>
    if s.covers then (.always, [])
    else if (scopeParts s columns offset args).1.length = 0 then (.always, [])
    else scopeConditions columns offset scopes (conditions ++ [(scopeParts s columns offset args).1])
      (scopeParts s columns offset args).2

/-- SOURCE: model.go:1147-1213 -/
def scopeSQL (scopes : List Scope) (columns : Columns) (offset : Nat) : Clause × List Arg :=
  if scopes.length = 0 then (.never, []) else scopeConditions columns offset scopes [] []

def Part.text : Part → Str
  | .never => ascii "false".toList
  | .equals column n => column ++ ascii " = $".toList ++ decimal n
  | .equalsUuid column n => column ++ ascii " = $".toList ++ decimal n ++ ascii "::uuid".toList
  | .anyOf column n => ascii "coalesce(".toList ++ column ++ ascii ", '') = any($".toList ++
      decimal n ++ ascii "::text[])".toList
  | .overlaps column n => ascii "coalesce(".toList ++ column ++ ascii ", '\x7b\x7d') && $".toList ++
      decimal n ++ ascii "::text[]".toList

/-- SOURCE: model.go:1205-1210 -/
def conditionText (parts : List Part) : Str :=
  match parts with
  | [part] => part.text
  | parts => ascii "(".toList ++ (ascii " and ".toList).intercalate (parts.map Part.text) ++
      ascii ")".toList

/-- SOURCE: model.go:1148-1150, 1159, 1212 -/
def Clause.text : Clause → Str
  | .always => []
  | .never => ascii "false".toList
  | .any conditions => ascii "(".toList ++
      (ascii " or ".toList).intercalate (conditions.map conditionText) ++ ascii ")".toList

end Flotestro.Authz
