import Flotestro.Library.Json
import Mathlib.Data.List.Sort

/-!
# Canonical JSON

The canonical form of RFC 8785.  A string of the source that is valid UTF-8 is its list of code
points, and a text that is written is too.  What the source takes from `strconv` is a parameter:
the shortest digits of a double and the double that a number of a text is read as.
-/

set_option autoImplicit false

namespace Flotestro.Jcs

open Library

/-- The digits of the `e` format, without the point, and its exponent. -/
structure Shortest where
  digits : List Nat
  exp : Int
  digits_ne : digits ≠ []
  digits_lt : ∀ d ∈ digits, d < 10
  first_ne : digits.head? ≠ some 0

/-- A finite double as it is printed; the two zeros are one. -/
inductive Shape where
  | zero
  | nonzero (neg : Bool) (d : Shortest)

/-- Digits times the power of ten. -/
def Shortest.value (d : Shortest) : ℚ := digitsValue d.digits * 10 ^ (d.exp + 1 - d.digits.length)

def Shape.value : Shape → ℚ
  | .zero => 0
  | .nonzero neg d => (if neg then -1 else 1) * d.value

/-- Doubles, as `strconv` prints and reads them: a number of a text that is exactly the one
the shortest digits of a double denote is read as that double. -/
structure Strconv (F : Type) where
  shape : F → Shape
  parse : Parts → Option F
  parse_of_value : ∀ f p, p.value = (shape f).value → parse p = some f

def digitChar (d : Nat) : Char := Char.ofNat (48 + d)

def digitsText (ds : List Nat) : Chars := ds.map digitChar

def decimalDigits (n : Nat) : List Nat := if n = 0 then [0] else (Nat.digits 10 n).reverse

def zeros (n : Nat) : Chars := digitsText (List.replicate n 0)

/-- SOURCE: jcs.go:191-205 -/
def exponentText (n : Int) : Chars :=
  'e' :: (if n - 1 < 0 then '-' else '+') :: digitsText (decimalDigits (n - 1).natAbs)

/-- The four layouts.  SOURCE: jcs.go:181-205 -/
def layout (d : Shortest) : Chars :=
  let k : Int := d.digits.length
  let n := d.exp + 1
  if k ≤ n ∧ n ≤ 21 then digitsText d.digits ++ zeros (n - k).toNat
  else if 0 < n ∧ n ≤ 21 then
    digitsText (d.digits.take n.toNat) ++ '.' :: digitsText (d.digits.drop n.toNat)
  else if -6 < n ∧ n ≤ 0 then '0' :: '.' :: (zeros (-n).toNat ++ digitsText d.digits)
  else if k = 1 then digitsText d.digits ++ exponentText n
  else digitsText (d.digits.take 1) ++ '.' :: digitsText (d.digits.drop 1) ++ exponentText n

/-- SOURCE: jcs.go:158-206 -/
def formatNumber : Shape → Chars
  | .zero => ['0']
  | .nonzero neg d => if neg then '-' :: layout d else layout d

/-- SOURCE: jcs.go:157 -/
def hexDigit (n : Nat) : Char := if n < 10 then Char.ofNat (48 + n) else Char.ofNat (87 + n)

/-- One code point of a string.  SOURCE: jcs.go:132-153 -/
def escape (c : Char) : Chars :=
  if 32 ≤ c.toNat ∧ c ≠ '"' ∧ c ≠ '\\' then [c]
  else if c = '"' then ['\\', '"']
  else if c = '\\' then ['\\', '\\']
  else if c = '\x08' then ['\\', 'b']
  else if c = '\t' then ['\\', 't']
  else if c = '\n' then ['\\', 'n']
  else if c = '\x0c' then ['\\', 'f']
  else if c = '\r' then ['\\', 'r']
  else ['\\', 'u', '0', '0', hexDigit (c.toNat / 16), hexDigit (c.toNat % 16)]

/-- SOURCE: jcs.go:127-155 -/
def writeString (s : Chars) : Chars := '"' :: (s.flatMap escape ++ ['"'])

/-- SOURCE: jcs.go:118-125 -/
def isASCII (s : Chars) : Bool := s.all fun c => c.toNat < 128

/-- The code units of a code point in UTF-16. -/
def units (c : Char) : List Nat :=
  if c.toNat < 0x10000 then [c.toNat]
  else [0xD800 + (c.toNat - 0x10000) / 1024, 0xDC00 + (c.toNat - 0x10000) % 1024]

def utf16 (s : Chars) : List Nat := s.flatMap units

/-- The first difference decides, and the length where there is none. -/
def lessUnits : List Nat → List Nat → Bool
  | [], right => !right.isEmpty
  | _ :: _, [] => false
  | a :: left, b :: right => if a ≠ b then a < b else lessUnits left right

/-- SOURCE: jcs.go:101-116 -/
def lessUTF16 (a b : Chars) : Bool :=
  if isASCII a && isASCII b then lessUnits (a.map Char.toNat) (b.map Char.toNat)
  else lessUnits (utf16 a) (utf16 b)

/-- The members in the order of their names. -/
def sortMembers {α : Type} (members : List (Chars × α)) : List (Chars × α) :=
  members.insertionSort fun m m' => lessUTF16 m'.1 m.1 = false

def joinTexts : List Chars → Chars
  | [] => []
  | [t] => t
  | t :: t' :: ts => t ++ ',' :: joinTexts (t' :: ts)

section

variable {ν : Type} (number : ν → Option Chars)

mutual

/-- SOURCE: jcs.go:46-99 -/
def write : Json ν → Option Chars
  | .null => some "null".toList
  | .bool b => some (if b then "true".toList else "false".toList)
  | .num n => number n
  | .str s => some (writeString s)
  | .arr items => (writeItems items).map fun ts => '[' :: (joinTexts ts ++ [']'])
  | .obj members => (writeMembers members).map fun ts =>
      '{' :: (joinTexts ((sortMembers ts).map fun m => writeString m.1 ++ ':' :: m.2) ++ ['}'])

def writeItems : List (Json ν) → Option (List Chars)
  | [] => some []
  | v :: items => (write v).bind fun t => (writeItems items).map fun ts => t :: ts

def writeMembers : List (Chars × Json ν) → Option (List (Chars × Chars))
  | [] => some []
  | (k, v) :: members => (write v).bind fun t => (writeMembers members).map fun ts => (k, t) :: ts

end

end

variable {F : Type} (strconv : Strconv F)

/-- A number of a tree: the double it is read as, printed.  SOURCE: jcs.go:55-64 -/
def numberText (p : Parts) : Option Chars :=
  (strconv.parse p).map fun f => formatNumber (strconv.shape f)

/-- The bound of the decoder on nested arrays and objects. -/
def maxNestingDepth : Nat := 10000

/-- SOURCE: jcs.go:28-44 -/
def transform (raw : Chars) : Option Chars :=
  (decode maxNestingDepth raw).bind (write (numberText strconv))

/-- The canonical text of a value whose numbers are doubles. -/
def canonical (v : Json F) : Option Chars :=
  write (fun f => some (formatNumber (strconv.shape f))) v

/-- The bytes of a text, in UTF-8. -/
def bytes (t : Chars) : ByteArray := (String.ofList t).toByteArray

end Flotestro.Jcs
