import Flotestro.Library.Bytes
import Mathlib.Data.List.AList

/-!
# Aliases of sudoers

The aliases of a policy and their expansion in a list of users, hosts, run-as identities or
commands.
-/

set_option autoImplicit false

namespace Flotestro.Sudoers

open Library

/-- The kinds of alias.  SOURCE: parser.go:245-251 -/
inductive Kind where
  | user
  | runas
  | host
  | cmnd
deriving DecidableEq

/-- SOURCE: parser.go:254 -/
abbrev AliasTable := Kind → AList fun _ : Bytes => List Bytes

/-- The exclamation mark. -/
def mark : UInt8 := 33

/-- An item without the marks before it. -/
def bare (item : Bytes) : Bytes := item.dropWhile (· = mark)

def allName : Bytes := ascii "ALL".toList

variable (t : AliasTable) (kind : Kind)

/-- The members an item is replaced by, if it is. -/
def AliasTable.members (item : Bytes) : Option (List Bytes) :=
  if bare item = allName then none else (t kind).lookup (bare item)

theorem AliasTable.mem_keys {t : AliasTable} {kind : Kind} {item : Bytes} {members : List Bytes}
    (h : t.members kind item = some members) : bare item ∈ (t kind).keys := by
  unfold AliasTable.members at h
  split at h
  · cases h
  · exact AList.mem_keys.mpr (AList.lookup_isSome.mp (by rw [h]; rfl))

/-- A member of an alias that stands behind a mark is negated. -/
def carry (item member : Bytes) : Bytes := if item.head? = some mark then mark :: member else member

/-- The expansion of one item.  The names being expanded are not expanded again, so that the
names left decrease: a cycle stops at the name that repeats.  SOURCE: parser.go:301-318 -/
def AliasTable.expand (seen : List Bytes) (item : Bytes) : List Bytes :=
  match _ : t.members kind item with
  | none => [item]
  | some members =>
    if _ : bare item ∈ seen then [item]
    else members.flatMap fun member => AliasTable.expand (bare item :: seen) (carry item member)
termination_by ((t kind).keys.filter (· ∉ seen)).length
decreasing_by
  have hkey : bare item ∈ (t kind).keys.filter (· ∉ seen) := by
    simp [AliasTable.mem_keys ‹t.members kind item = some members›, ‹bare item ∉ seen›]
  have hsub : (t kind).keys.filter (· ∉ bare item :: seen) =
      ((t kind).keys.filter (· ∉ seen)).filter (· ≠ bare item) := by
    simp [List.filter_filter]
  rw [hsub]
  exact List.length_filter_lt_length_iff_exists.mpr ⟨_, hkey, by simp⟩

/-- SOURCE: parser.go:298-323 -/
def AliasTable.resolve (items : List Bytes) : List Bytes := items.flatMap (t.expand kind [])

end Flotestro.Sudoers
