import Mathlib.Data.Nat.Digits.Defs
import Mathlib.Algebra.Order.Field.Basic

/-!
# JSON texts

JSON values over a type of numbers, and a decoder of JSON texts: strings with their escapes, numbers
as their parts, arrays and objects nested up to a bound, white space anywhere between tokens.  A text
is a list of code points.  Of two members with one name the later counts.

Nothing here names a component.
-/

set_option autoImplicit false

namespace Flotestro.Library

open List

/-- A text as its code points. -/
abbrev Chars := List Char

/-- A JSON value with numbers in `ν`. -/
inductive Json (ν : Type) where
  | null
  | bool (b : Bool)
  | num (n : ν)
  | str (s : Chars)
  | arr (items : List (Json ν))
  | obj (members : List (Chars × Json ν))

namespace Json

variable {ν μ : Type}

section

variable {P : Json ν → Prop} (hnull : P .null) (hbool : ∀ b, P (.bool b)) (hnum : ∀ n, P (.num n))
  (hstr : ∀ s, P (.str s)) (harr : ∀ items, (∀ v ∈ items, P v) → P (.arr items))
  (hobj : ∀ members, (∀ m ∈ members, P m.2) → P (.obj members))

include hnull hbool hnum hstr harr hobj

mutual

/-- Induction on a value, with the property of every item and every member at hand. -/
theorem induct : (v : Json ν) → P v
  | .null => hnull
  | .bool b => hbool b
  | .num n => hnum n
  | .str s => hstr s
  | .arr items => harr items (inductItems items)
  | .obj members => hobj members (inductMembers members)

theorem inductItems : (items : List (Json ν)) → ∀ v ∈ items, P v
  | [], _, h => absurd h not_mem_nil
  | v :: items, w, h => by
    rcases mem_cons.mp h with h | h
    · rw [h]
      exact induct v
    · exact inductItems items w h

theorem inductMembers : (members : List (Chars × Json ν)) → ∀ m ∈ members, P m.2
  | [], _, h => absurd h not_mem_nil
  | (k, v) :: members, m, h => by
    rcases mem_cons.mp h with h | h
    · rw [h]
      exact induct v
    · exact inductMembers members m h

end

end

mutual

/-- The same value over other numbers. -/
def mapNum (f : ν → μ) : Json ν → Json μ
  | .null => .null
  | .bool b => .bool b
  | .num n => .num (f n)
  | .str s => .str s
  | .arr items => .arr (mapNumItems f items)
  | .obj members => .obj (mapNumMembers f members)

def mapNumItems (f : ν → μ) : List (Json ν) → List (Json μ)
  | [] => []
  | v :: items => v.mapNum f :: mapNumItems f items

def mapNumMembers (f : ν → μ) : List (Chars × Json ν) → List (Chars × Json μ)
  | [] => []
  | (k, v) :: members => (k, v.mapNum f) :: mapNumMembers f members

end

mutual

/-- How deep arrays and objects are nested. -/
def depth : Json ν → Nat
  | .arr items => depthItems items + 1
  | .obj members => depthMembers members + 1
  | _ => 0

def depthItems : List (Json ν) → Nat
  | [] => 0
  | v :: items => max v.depth (depthItems items)

def depthMembers : List (Chars × Json ν) → Nat
  | [] => 0
  | (_, v) :: members => max v.depth (depthMembers members)

end

mutual

/-- No object has two members of one name. -/
def Distinct : Json ν → Prop
  | .arr items => DistinctItems items
  | .obj members => (members.map Prod.fst).Nodup ∧ DistinctMembers members
  | _ => True

def DistinctItems : List (Json ν) → Prop
  | [] => True
  | v :: items => v.Distinct ∧ DistinctItems items

def DistinctMembers : List (Chars × Json ν) → Prop
  | [] => True
  | (_, v) :: members => v.Distinct ∧ DistinctMembers members

end

/-- Equal up to the order of members: the least congruence that permutes the members of an
object. -/
inductive Same : Json ν → Json ν → Prop where
  | refl (v : Json ν) : Same v v
  | symm {v w : Json ν} (h : Same v w) : Same w v
  | trans {u v w : Json ν} (h : Same u v) (h' : Same v w) : Same u w
  | item {v w : Json ν} (before after : List (Json ν)) (h : Same v w) :
      Same (.arr (before ++ v :: after)) (.arr (before ++ w :: after))
  | member {v w : Json ν} (before after : List (Chars × Json ν)) (k : Chars) (h : Same v w) :
      Same (.obj (before ++ (k, v) :: after)) (.obj (before ++ (k, w) :: after))
  | perm {members members' : List (Chars × Json ν)} (h : members.Perm members') :
      Same (.obj members) (.obj members')

/-! ### The lists of a value -/

theorem mapNumItems_eq (f : ν → μ) (items : List (Json ν)) :
    mapNumItems f items = items.map (mapNum f) := by
  induction items with
  | nil => rfl
  | cons v items ih => rw [mapNumItems, ih, map_cons]

theorem mapNumMembers_eq (f : ν → μ) (members : List (Chars × Json ν)) :
    mapNumMembers f members = members.map fun m => (m.1, m.2.mapNum f) := by
  induction members with
  | nil => rfl
  | cons m members ih => rw [mapNumMembers, ih, map_cons]

theorem depth_le_depthItems {items : List (Json ν)} {v : Json ν} (h : v ∈ items) :
    v.depth ≤ depthItems items := by
  induction items with
  | nil => cases h
  | cons w items ih =>
    rcases mem_cons.mp h with rfl | h
    · exact le_max_left _ _
    · exact (ih h).trans (le_max_right _ _)

theorem depth_le_depthMembers {members : List (Chars × Json ν)} {m : Chars × Json ν}
    (h : m ∈ members) : m.2.depth ≤ depthMembers members := by
  induction members with
  | nil => cases h
  | cons m' members ih =>
    rcases mem_cons.mp h with rfl | h
    · exact le_max_left _ _
    · exact (ih h).trans (le_max_right _ _)

theorem distinctItems_iff (items : List (Json ν)) :
    DistinctItems items ↔ ∀ v ∈ items, v.Distinct := by
  induction items with
  | nil => simp [DistinctItems]
  | cons v items ih => rw [DistinctItems, ih, forall_mem_cons]

theorem distinctMembers_iff (members : List (Chars × Json ν)) :
    DistinctMembers members ↔ ∀ m ∈ members, m.2.Distinct := by
  induction members with
  | nil => simp [DistinctMembers]
  | cons m members ih => rw [DistinctMembers, ih, forall_mem_cons]

/-- A map that is injective at the elements of one of two lists tells them apart. -/
theorem eq_of_map_eq {α β : Type} {f : α → β} {l l' : List α}
    (hf : ∀ a ∈ l, ∀ b, f a = f b → a = b) (h : l.map f = l'.map f) : l = l' := by
  induction l generalizing l' with
  | nil => exact (map_eq_nil_iff.mp h.symm).symm
  | cons a l ih =>
    cases l' with
    | nil => exact absurd h (cons_ne_nil _ _)
    | cons b l' =>
      injection h with hhead htail
      rw [hf a mem_cons_self b hhead, ih (fun a ha => hf a (mem_cons_of_mem _ ha)) htail]

theorem mapNum_injective {f : ν → μ} (hf : Function.Injective f) :
    Function.Injective (mapNum f) := by
  intro v
  induction v using Json.induct with
  | hnull | hbool b | hstr s => intro w h; cases w <;> simp_all [mapNum]
  | hnum n =>
    intro w h
    cases w <;> simp only [mapNum, reduceCtorEq, Json.num.injEq] at h
    rw [hf h]
  | harr items ih =>
    intro w h
    cases w <;> simp only [mapNum, reduceCtorEq, Json.arr.injEq, mapNumItems_eq] at h
    rw [eq_of_map_eq (fun v hv w h => ih v hv h) h]
  | hobj members ih =>
    intro w h
    cases w <;> simp only [mapNum, reduceCtorEq, Json.obj.injEq, mapNumMembers_eq] at h
    rw [eq_of_map_eq (fun m hm m' h => ?_) h]
    obtain ⟨hname, hvalue⟩ := Prod.mk.inj h
    exact Prod.ext hname (ih m hm hvalue)

/-! ### Equal up to the order of members -/

theorem Same.distinct {v w : Json ν} (h : Same v w) : v.Distinct ↔ w.Distinct := by
  induction h with
  | refl v => exact .rfl
  | symm _ ih => exact ih.symm
  | trans _ _ ih ih' => exact ih.trans ih'
  | item before after _ ih =>
    simp only [Distinct, distinctItems_iff, forall_mem_append, forall_mem_cons, ih]
  | member before after k _ ih =>
    simp only [Distinct, distinctMembers_iff, forall_mem_append, forall_mem_cons, ih,
      map_append, map_cons]
  | perm h =>
    simp [Distinct, distinctMembers_iff, (h.map Prod.fst).nodup_iff, h.mem_iff]

/-- The items of an array one after another. -/
theorem Same.arr_map {f : Json ν → Json ν} (items : List (Json ν)) (h : ∀ v ∈ items, Same v (f v))
    (before : List (Json ν)) : Same (.arr (before ++ items)) (.arr (before ++ items.map f)) := by
  induction items generalizing before with
  | nil => exact .refl _
  | cons v items ih =>
    have hfirst := Same.item before items (h v mem_cons_self)
    have hrest := ih (fun w hw => h w (mem_cons_of_mem v hw)) (before ++ [f v])
    rw [append_assoc, append_assoc] at hrest
    exact hfirst.trans hrest

theorem Same.obj_map {f : Json ν → Json ν} (members : List (Chars × Json ν))
    (h : ∀ m ∈ members, Same m.2 (f m.2)) (before : List (Chars × Json ν)) :
    Same (.obj (before ++ members)) (.obj (before ++ members.map fun m => (m.1, f m.2))) := by
  induction members generalizing before with
  | nil => exact .refl _
  | cons m members ih =>
    have hfirst := Same.member before members m.1 (h m mem_cons_self)
    have hrest := ih (fun w hw => h w (mem_cons_of_mem m hw)) (before ++ [(m.1, f m.2)])
    rw [append_assoc, append_assoc] at hrest
    exact hfirst.trans hrest

end Json

/-! ## Numbers -/

/-- The number a list of decimal digits stands for, most significant first. -/
def digitsValue (ds : List Nat) : Nat := Nat.ofDigits 10 ds.reverse

/-- A number of a JSON text: its sign, the digits before and after the point, and the
exponent. -/
structure Parts where
  neg : Bool
  int : List Nat
  frac : List Nat
  exp : Int

/-- The number a text denotes. -/
def Parts.value (p : Parts) : ℚ :=
  (if p.neg then -1 else 1) * (digitsValue (p.int ++ p.frac) * 10 ^ (p.exp - p.frac.length))

def digitOf (c : Char) : Nat := c.toNat - 48

def isDigitChar (c : Char) : Bool := '0' ≤ c && c ≤ '9'

variable (s : Chars)

/-- The digits a text begins with. -/
def spanDigits : List Nat × Chars :=
  ((s.takeWhile isDigitChar).map digitOf, s.dropWhile isDigitChar)

/-- A zero by itself, or digits that begin with another. -/
def readInt : Option (List Nat × Chars) :=
  match s with
  | [] => none
  | c :: rest =>
    if c = '0' then some ([0], rest)
    else if isDigitChar c then some (spanDigits s) else none

/-- The digits after a point, where there is one. -/
def readFrac : Option (List Nat × Chars) :=
  if s.head? = some '.' then
    let (ds, rest) := spanDigits s.tail
    if ds = [] then none else some (ds, rest)
  else some ([], s)

def readSign : Bool × Chars :=
  if s.head? = some '-' then (true, s.tail)
  else if s.head? = some '+' then (false, s.tail)
  else (false, s)

def readExp : Option (Int × Chars) :=
  if s.head? = some 'e' ∨ s.head? = some 'E' then
    let (neg, s) := readSign s.tail
    let (ds, rest) := spanDigits s
    if ds = [] then none
    else some (if neg then -(digitsValue ds : Int) else digitsValue ds, rest)
  else some (0, s)

def readMinus : Bool × Chars := if s.head? = some '-' then (true, s.tail) else (false, s)

/-- A number behind its minus. -/
def readUnsigned (neg : Bool) (s : Chars) : Option (Parts × Chars) :=
  (readInt s).bind fun (int, s) =>
    (readFrac s).bind fun (frac, s) =>
      (readExp s).map fun (exp, s) => (⟨neg, int, frac, exp⟩, s)

def readNumber : Option (Parts × Chars) := readUnsigned (readMinus s).1 (readMinus s).2

/-! ## Strings -/

def hexValue (c : Char) : Option Nat :=
  if '0' ≤ c ∧ c ≤ '9' then some (c.toNat - 48)
  else if 'a' ≤ c ∧ c ≤ 'f' then some (c.toNat - 87)
  else if 'A' ≤ c ∧ c ≤ 'F' then some (c.toNat - 55)
  else none

def readHex : Option (Nat × Chars) :=
  match s with
  | a :: b :: c :: d :: rest =>
    (hexValue a).bind fun a => (hexValue b).bind fun b => (hexValue c).bind fun c =>
      (hexValue d).map fun d => (((a * 16 + b) * 16 + c) * 16 + d, rest)
  | _ => none

/-- The unit of a second escape, right behind a first one. -/
def readSecond : Option (Nat × Chars) :=
  match s with
  | '\\' :: 'u' :: rest => readHex rest
  | _ => none

def replacement : Char := Char.ofNat 0xFFFD

/-- A code unit; two surrogates make one code point, a lone one is replaced. -/
def readUnit (u : Nat) (s : Chars) : Char × Chars :=
  if 0xD800 ≤ u ∧ u < 0xE000 then
    match readSecond s with
    | some (low, rest) =>
      if u < 0xDC00 ∧ 0xDC00 ≤ low ∧ low < 0xE000 then
        (Char.ofNat (0x10000 + (u - 0xD800) * 1024 + (low - 0xDC00)), rest)
      else (replacement, s)
    | none => (replacement, s)
  else (Char.ofNat u, s)

/-- What a backslash and a letter stand for. -/
def simpleEscape (c : Char) : Option Char :=
  if c = '"' ∨ c = '\\' ∨ c = '/' then some c
  else if c = 'b' then some '\x08'
  else if c = 't' then some '\t'
  else if c = 'n' then some '\n'
  else if c = 'f' then some '\x0c'
  else if c = 'r' then some '\r'
  else none

/-- What follows a backslash. -/
def readEscape (s : Chars) : Option (Char × Chars) :=
  match s with
  | [] => none
  | c :: rest =>
    if c = 'u' then (readHex rest).map fun (u, rest) => readUnit u rest
    else (simpleEscape c).map fun c => (c, rest)

/-- A string up to its closing quote. -/
def readBody : Nat → Chars → Option (Chars × Chars)
  | 0, _ => none
  | _, [] => none
  | n + 1, c :: rest =>
    if c = '"' then some ([], rest)
    else if c = '\\' then
      (readEscape rest).bind fun (c, rest) => (readBody n rest).map fun (cs, r) => (c :: cs, r)
    else if c.toNat < 32 then none
    else (readBody n rest).map fun (cs, r) => (c :: cs, r)

def readString : Option (Chars × Chars) := readBody s.length s

/-! ## Values -/

def isSpace (c : Char) : Bool := c = ' ' || c = '\t' || c = '\n' || c = '\r'

def skip : Chars := s.dropWhile isSpace

def readWord (w s : Chars) : Option Chars := if w.isPrefixOf s then some (s.drop w.length) else none

/-- Of members with one name the last. -/
def lastWins {α : Type} : List (Chars × α) → List (Chars × α)
  | [] => []
  | m :: members =>
    if m.1 ∈ members.map Prod.fst then lastWins members else m :: lastWins members

/-- The name of a member and the colon behind it. -/
def readName : Option (Chars × Chars) :=
  match skip s with
  | [] => none
  | c :: rest =>
    if c = '"' then
      (readString rest).bind fun (k, rest) =>
        if (skip rest).head? = some ':' then some (k, (skip rest).tail) else none
    else none

mutual

/-- A value, with so many levels of arrays and objects allowed. -/
def decodeValue : Nat → Nat → Chars → Option (Json Parts × Chars)
  | 0, _, _ => none
  | n + 1, levels, s =>
    match skip s with
    | [] => none
    | c :: rest =>
      if c = '"' then (readString rest).map fun (s, rest) => (.str s, rest)
      else if c = '[' then
        match levels with
        | 0 => none
        | levels + 1 =>
          if (skip rest).head? = some ']' then some (.arr [], (skip rest).tail)
          else (decodeItems n levels rest).map fun (items, rest) => (.arr items, rest)
      else if c = '{' then
        match levels with
        | 0 => none
        | levels + 1 =>
          if (skip rest).head? = some '}' then some (.obj [], (skip rest).tail)
          else (decodeMembers n levels rest).map fun (members, rest) =>
            (.obj (lastWins members), rest)
      else if c = 't' then (readWord "rue".toList rest).map fun rest => (.bool true, rest)
      else if c = 'f' then (readWord "alse".toList rest).map fun rest => (.bool false, rest)
      else if c = 'n' then (readWord "ull".toList rest).map fun rest => (.null, rest)
      else (readNumber (c :: rest)).map fun (p, rest) => (.num p, rest)

/-- The items of an array up to its end. -/
def decodeItems : Nat → Nat → Chars → Option (List (Json Parts) × Chars)
  | 0, _, _ => none
  | n + 1, levels, s =>
    (decodeValue n levels s).bind fun (v, rest) =>
      if (skip rest).head? = some ',' then
        (decodeItems n levels (skip rest).tail).map fun (items, rest) => (v :: items, rest)
      else if (skip rest).head? = some ']' then some ([v], (skip rest).tail)
      else none

/-- The members of an object up to its end. -/
def decodeMembers : Nat → Nat → Chars → Option (List (Chars × Json Parts) × Chars)
  | 0, _, _ => none
  | n + 1, levels, s =>
    (readName s).bind fun (k, rest) =>
      (decodeValue n levels rest).bind fun (v, rest) =>
        if (skip rest).head? = some ',' then
          (decodeMembers n levels (skip rest).tail).map fun (members, rest) =>
            ((k, v) :: members, rest)
        else if (skip rest).head? = some '}' then some ([(k, v)], (skip rest).tail)
        else none

end

/-- A text with one value and nothing but white space around it. -/
def decode (levels : Nat) (s : Chars) : Option (Json Parts) :=
  match decodeValue (s.length + 1) levels s with
  | some (v, rest) => if skip rest = [] then some v else none
  | none => none

end Flotestro.Library
