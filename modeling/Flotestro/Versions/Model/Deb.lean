import Flotestro.Library.Space

/-!
# Versions of Debian packages

`CompareDeb` over strings of bytes, with the cursors of its loops.  A byte is read where the guard of
the loop says that it is there; a slice outside its string is the panic `none`.  A sign is an
`Ordering`.
-/

set_option autoImplicit false

namespace Flotestro.Versions

open Library

def isDigit (c : UInt8) : Bool := 48 ≤ c && c ≤ 57

/-- The order dpkg gives to a character.
SOURCE: deb.go:97-108 -/
def debOrder (c : UInt8) : Int :=
  if c = 126 then -1
  else if isDigit c then 0
  else if (97 ≤ c && c ≤ 122) || (65 ≤ c && c ≤ 90) then c.toNat
  else c.toNat + 256

/-- Where a loop that goes on while the bytes are of a kind stops. -/
def scan (p : UInt8 → Bool) (a : Bytes) (i : Nat) : Nat := i + ((a.drop i).takeWhile p).length

def slice (a : Bytes) (i j : Nat) : Option Bytes :=
  if i ≤ j ∧ j ≤ a.length then some ((a.drop i).take (j - i)) else none

/-- SOURCE: deb.go:56-62 -/
def charAt (a : Bytes) (i : Nat) : Int := (a[i]?).elim 0 debOrder

/-- SOURCE: deb.go:55 -/
def inFragment (a : Bytes) (i : Nat) : Bool := (a[i]?).any (!isDigit ·)

theorem inFragment_lt {a : Bytes} {i : Nat} (h : inFragment a i = true) : i < a.length := by
  by_contra hle
  simp [inFragment, List.getElem?_eq_none (Nat.le_of_not_lt hle)] at h

section
variable (a b : Bytes)

/-- The loop over a fragment that is not numeric: the sign at the first difference, or the
cursors behind it.
SOURCE: deb.go:55-68 -/
def fragment (i j : Nat) : Ordering ⊕ Nat × Nat :=
  if h : inFragment a i || inFragment b j then
    if charAt a i ≠ charAt b j then .inl (compare (charAt a i) (charAt b j))
    else fragment (i + 1) (j + 1)
  else .inr (i, j)
termination_by (a.length - i) + (b.length - j)
decreasing_by
  have := (Bool.or_eq_true_iff.mp h).imp inFragment_lt inFragment_lt
  omega

/-- The loop of `compareDebPart` from two cursors on.
SOURCE: deb.go:53-92 -/
def compareFrom : Nat → Nat → Nat → Option Ordering
  | 0, _, _ => none
  | fuel + 1, i, j =>
    if i < a.length ∨ j < b.length then
      match fragment a b i j with
      | .inl result => some result
      | .inr (i, j) => do
        let startA := scan (· = 48) a i
        let startB := scan (· = 48) b j
        let i := scan isDigit a startA
        let j := scan isDigit b startB
        let digitsA ← slice a startA i
        let digitsB ← slice b startB j
        match (compare digitsA.length digitsB.length).then (compare digitsA digitsB) with
        | .eq => compareFrom fuel i j
        | result => some result
    else some .eq

/-- SOURCE: deb.go:50-93 -/
def compareDebPart : Option Ordering := compareFrom a b (a.length + b.length + 1) 0 0

end

/-- The digits from `n` on, to the first that is out of range; zero for what is no number. -/
def parseUint (n : Nat) : Bytes → Nat
  | [] => n
  | c :: rest =>
    let m := 10 * n + (c.toNat - 48)
    if !isDigit c then 0 else if 2 ^ 64 ≤ m then 2 ^ 64 - 1 else parseUint m rest

/-- The number `strconv.Atoi` answers, the error aside. -/
def atoi (s : Bytes) : Int :=
  let n : Int := match s with
    | 45 :: digits => -parseUint 0 digits
    | 43 :: digits => parseUint 0 digits
    | digits => parseUint 0 digits
  max (-2 ^ 63) (min (2 ^ 63 - 1) n)

/-- The epoch, the upstream part and the revision.
SOURCE: deb.go:25-39 -/
def splitDeb (version : Bytes) : Int × Bytes × Bytes :=
  let version := trimSpace version
  let (epoch, version) := match version.idxOf? 58 with
    | some colon => (atoi (version.take colon), version.drop (colon + 1))
    | none => (0, version)
  match version.reverse.idxOf? 45 with
  | some back =>
    (epoch, version.take (version.length - 1 - back), version.drop (version.length - back))
  | none => (epoch, version, [])

/-- SOURCE: deb.go:11-22 -/
def compareDeb (a b : Bytes) : Option Ordering :=
  let (epochA, upstreamA, revisionA) := splitDeb a
  let (epochB, upstreamB, revisionB) := splitDeb b
  match compare epochA epochB with
  | .eq => do
    match ← compareDebPart upstreamA upstreamB with
    | .eq => compareDebPart revisionA revisionB
    | result => some result
  | result => some result

end Flotestro.Versions
