import Flotestro.Library.Runes
import Mathlib.Data.Finset.Sort
import Mathlib.Order.Interval.Finset.Nat

/-!
# Cron expressions

The parser of cron expressions and the calendar expression of a timer that is made from one.
-/

set_option autoImplicit false

namespace Flotestro.Schedules

open Library

/-- The allowed values of the consecutive fields.  SOURCE: cron.go:14-17 -/
def ranges : List (Int × Int) := [(0, 59), (0, 23), (1, 31), (1, 12), (0, 7)]

def digitValue : Rune → Option Nat
  | .char c => if 48 ≤ c.toNat ∧ c.toNat ≤ 57 then some (c.toNat - 48) else none
  | .bad _ => none

def digits (s : Runes) : Option Nat :=
  if s = [] then none else s.foldlM (fun n c => (digitValue c).map fun d => 10 * n + d) 0

/-- The sign of a number and what follows it. -/
def sign (s : Runes) : Bool × Runes :=
  if s.head? = some (.char '-') then (true, s.tail)
  else if s.head? = some (.char '+') then (false, s.tail)
  else (false, s)

/-- `strconv.Atoi`: a decimal number with an optional sign that fits 64 bits. -/
def atoi (s : Runes) : Option Int :=
  (digits (sign s).2).bind fun n =>
    if (sign s).1 then if n ≤ 9223372036854775808 then some (-(n : Int)) else none
    else if n ≤ 9223372036854775807 then some n else none

inductive FieldError where
  | step (s : Runes)
  | range (s : Runes)
  | value (s : Runes)
  | outside (min max : Int)
  | noValue
  deriving DecidableEq

/-- What stands before the first separator, and what stands behind it, where there is one. -/
def cut (sep : Rune) (s : Runes) : Runes × Option Runes :=
  if sep ∈ s then (s.takeWhile (· ≠ sep), some (s.dropWhile (· ≠ sep)).tail) else (s, none)

/-- The step of a part and the part before it.  SOURCE: cron.go:81-89 -/
def parseStep (part : Runes) : Except FieldError (Int × Runes) :=
  match cut (.char '/') part with
  | (_, none) => .ok (1, part)
  | (before, some text) =>
    match atoi text with
    | none => .error (.step text)
    | some value => if value ≤ 0 then .error (.step text) else .ok (value, before)

/-- The first and the last value of a part.  SOURCE: cron.go:91-108 -/
def parseBounds (part : Runes) (min max : Int) : Except FieldError (Int × Int) :=
  if part = runes "*" ∨ part = [] then .ok (min, max)
  else
    match cut (.char '-') part with
    | (start, some stop) =>
      match atoi start, atoi stop with
      | some start, some stop => .ok (start, stop)
      | _, _ => .error (.range part)
    | (_, none) =>
      match atoi part with
      | some value => .ok (value, value)
      | none => .error (.value part)

/-- The values from one on to another in steps. -/
def stepped (first last step : Int) : List Int :=
  (List.range ((last - first) / step + 1).toNat).map fun i => first + i * step

/-- The values of one part.  SOURCE: cron.go:80-120 -/
def parsePart (min max : Int) (part : Runes) : Except FieldError (List Int) := do
  let (step, part) ← parseStep part
  let (first, last) ← parseBounds part min max
  if first < min ∨ last > max ∨ first > last then throw (.outside min max)
  let step := if step > max - min then max - min + 1 else step
  pure (stepped first last step)

/-- The values of a field.  SOURCE: cron.go:76-125 -/
def parseField (field : Runes) (min max : Int) : Except FieldError (Finset Int) := do
  let values ← (Runes.split (.char ',') field).mapM (parsePart min max)
  if values.flatten = [] then throw .noValue
  pure values.flatten.toFinset

/-- SOURCE: cron.go:19-28 -/
structure Expression where
  allowed : List (Finset Int)
  dayOfMonthStar : Bool
  dayOfWeekStar : Bool

/-- SOURCE: cron.go:30-39 -/
def shortcuts : List (Runes × Runes) :=
  [(runes "@yearly", runes "0 0 1 1 *"), (runes "@annually", runes "0 0 1 1 *"),
    (runes "@monthly", runes "0 0 1 * *"), (runes "@weekly", runes "0 0 * * 0"),
    (runes "@daily", runes "0 0 * * *"), (runes "@midnight", runes "0 0 * * *"),
    (runes "@hourly", runes "0 * * * *")]

inductive ExpressionError where
  | unsupported (expression : Runes)
  | fieldCount (count : Nat)
  | field (number : Nat) (text : Runes) (err : FieldError)
  deriving DecidableEq

/-- A shortcut in any case, or the expression itself.  SOURCE: cron.go:43-46 -/
def expand (expression : Runes) : Runes :=
  (shortcuts.lookup (expression.map Rune.toLower)).getD expression

/-- A field with the number that its error names.  SOURCE: cron.go:61-67 -/
def parseNumbered (numbered : (Runes × (Int × Int)) × Nat) : Except ExpressionError (Finset Int) :=
  match parseField numbered.1.1 numbered.1.2.1 numbered.1.2.2 with
  | .ok allowed => .ok allowed
  | .error err => .error (.field (numbered.2 + 1) numbered.1.1 err)

/-- Sunday has two numbers.  SOURCE: cron.go:68-72 -/
def withSunday (allowed : List (Finset Int)) : List (Finset Int) :=
  allowed.modify 4 fun days => if 7 ∈ days then insert 0 days else days

/-- The fields of an expression.  SOURCE: cron.go:53-73 -/
def parseFields (fields : List Runes) : Except ExpressionError Expression :=
  if fields.length ≠ 5 then .error (.fieldCount fields.length)
  else
    match ((fields.zip ranges).zipIdx).mapM parseNumbered with
    | .ok allowed =>
      .ok ⟨withSunday allowed, fields[2]? = some (runes "*"), fields[4]? = some (runes "*")⟩
    | .error err => .error err

/-- SOURCE: cron.go:41-74 -/
def parseExpression (expression : Runes) : Except ExpressionError Expression :=
  let expression := expand (Runes.trimSpace expression)
  if (runes "@").isPrefixOf expression then .error (.unsupported expression)
  else parseFields (Runes.fields expression)

/-- The fields of a minute. -/
structure Moment where
  year : Int
  month : Int
  day : Int
  hour : Int
  minute : Int
  weekday : Int
  ranged : (0 ≤ minute ∧ minute ≤ 59) ∧ (0 ≤ hour ∧ hour ≤ 23) ∧ (1 ≤ day ∧ day ≤ 31) ∧
    (1 ≤ month ∧ month ≤ 12) ∧ 0 ≤ weekday ∧ weekday ≤ 6

def Expression.allows (e : Expression) (field : Nat) (value : Int) : Bool :=
  value ∈ (e.allowed[field]?).getD ∅

/-- SOURCE: cron.go:148-172 -/
def Expression.matches (e : Expression) (m : Moment) : Bool :=
  if !e.allows 0 m.minute || !e.allows 1 m.hour then false
  else if !e.allows 3 m.month then false
  else if e.dayOfMonthStar && e.dayOfWeekStar then true
  else if e.dayOfMonthStar then e.allows 4 m.weekday
  else if e.dayOfWeekStar then e.allows 2 m.day
  else e.allows 2 m.day || e.allows 4 m.weekday

def twoDigits (n : Int) : Runes :=
  if 0 ≤ n ∧ n < 10 then runes "0" ++ runes (toString n) else runes (toString n)

def joinComma (parts : List Runes) : Runes := Words.join (.char ',') parts

/-- SOURCE: timer.go:426-437 -/
def component (values : List Int) (min max : Int) : Runes :=
  if (values.length : Int) ≥ max - min + 1 then runes "*" else joinComma (values.map twoDigits)

/-- SOURCE: timer.go:416-424 -/
def Expression.values (e : Expression) (field : Nat) : List Int :=
  ((e.allowed[field]?).getD ∅).sort (· ≤ ·)

def Expression.component (e : Expression) (field : Nat) : Runes :=
  let range := (ranges[field]?).getD (0, 0)
  Schedules.component (e.values field) range.1 range.2

/-- SOURCE: timer.go:370-372 -/
def weekdayNames : List Runes :=
  [runes "Sun", runes "Mon", runes "Tue", runes "Wed", runes "Thu", runes "Fri", runes "Sat"]

/-- The days of the week, each once.  SOURCE: timer.go:399-409 -/
def weekdays (values : List Int) : List Runes :=
  (values.map fun value => (value % 7).toNat).reverse.dedup.reverse.map fun day =>
    (weekdayNames[day]?).getD []

/-- SOURCE: timer.go:384-414 -/
def Expression.calendar (e : Expression) : Option Runes :=
  if e.dayOfMonthStar = false ∧ e.dayOfWeekStar = false then none
  else
    let calendar := runes "*-" ++ e.component 3 ++ runes "-" ++ e.component 2 ++ runes " " ++
      e.component 1 ++ runes ":" ++ e.component 0 ++ runes ":00"
    if e.dayOfWeekStar then some calendar
    else
      let days := weekdays (e.values 4)
      if days.length = 0 ∨ days.length = 7 then some calendar
      else some (joinComma days ++ runes " " ++ calendar)

end Flotestro.Schedules
