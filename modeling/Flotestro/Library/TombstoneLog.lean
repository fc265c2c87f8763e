import Mathlib.Data.Set.Basic

/-!
# Logs with tombstones

A store keeps its values in an append-only log cut into segments.  A segment is a list of
items: `put k v` says that `k` is there with the value `v`, `del k` buries it.  Whoever reads
the whole log takes for alive what some segment puts and no segment buries.

Two questions decide whether a reader brings back what the store has forgotten, `A` being
the keys the store holds.

* `Guarded L A`: what the log puts is held by the store or buried in the log;
* `Ordered L`: no tombstone stands before the value it buries.

The operations of such a store are to append to a segment (`write`) and to drop a whole
segment (`drop`).  Dropping is where values come back: `SafeDrop` says when they do not, and
the oldest segment of an ordered log is always safe to drop (`safeDrop_of_oldest`).

Nothing here names a component.
-/

set_option autoImplicit false

namespace Flotestro.Library

inductive Item (K V : Type) where
  | put (k : K) (v : V)
  | del (k : K)

def Item.putKey {K V : Type} : Item K V → Option K
  | .put k _ => some k
  | .del _ => none

def Item.delKey {K V : Type} : Item K V → Option K
  | .put _ _ => none
  | .del k => some k

/-- What each segment of a log says. -/
abbrev Log (G K V : Type) := G → List (Item K V)

namespace Log

variable {G K V : Type} {L : Log G K V} {A : Set K} {g : G} {k : K}

/-- Some segment puts the key. -/
def Held (L : Log G K V) (k : K) : Prop := ∃ g v, Item.put k v ∈ L g

/-- Some segment buries the key. -/
def Buried (L : Log G K V) (k : K) : Prop := ∃ g, Item.del k ∈ L g

/-- A reader of the whole log takes the key for alive. -/
def Alive (L : Log G K V) (k : K) : Prop := Held L k ∧ ¬Buried L k

/-- What the log puts is a key of `A` or buried. -/
def Guarded (L : Log G K V) (A : Set K) : Prop := ∀ k, Held L k → k ∈ A ∨ Buried L k

/-- No tombstone stands before the value it buries. -/
def Ordered [LE G] (L : Log G K V) : Prop :=
  ∀ g g' k v, Item.put k v ∈ L g → Item.del k ∈ L g' → g ≤ g'

/-- Nothing but the keys of the store is alive in a guarded log. -/
theorem Guarded.mem_of_alive (h : Guarded L A) (hk : Alive L k) : k ∈ A :=
  (h k hk.1).resolve_right hk.2

/-- A store that knows of more keys is guarded by the same log. -/
theorem Guarded.mono {B : Set K} (h : Guarded L A) (hAB : ∀ k ∈ A, k ∈ B) : Guarded L B :=
  fun k hk => (h k hk).imp (hAB k) id

/-- Every value another segment still puts and this one buries is buried elsewhere
too. -/
def SafeDrop (L : Log G K V) (g : G) : Prop :=
  ∀ k, Item.del k ∈ L g → ∀ g' v, g' ≠ g → Item.put k v ∈ L g' →
    ∃ g'', g'' ≠ g ∧ Item.del k ∈ L g''

/-- **The oldest segment is safe to drop.**  In an ordered log its tombstones bury
nothing but its own values. -/
theorem safeDrop_of_oldest [PartialOrder G] (h : Ordered L) (hold : ∀ g', L g' ≠ [] → g ≤ g') :
    SafeDrop L g := by
  intro k hdel g' v hne hput
  have hle : g ≤ g' := hold g' (List.ne_nil_of_mem hput)
  exact absurd (le_antisymm (h g' g k v hput hdel) hle) hne

variable [DecidableEq G]

def write (L : Log G K V) (g : G) (items : List (Item K V)) : Log G K V :=
  Function.update L g (L g ++ items)

/-- The log without a segment. -/
def drop (L : Log G K V) (g : G) : Log G K V := Function.update L g []

@[simp] theorem mem_write {g' : G} {items : List (Item K V)} {i : Item K V} :
    i ∈ write L g items g' ↔ i ∈ L g' ∨ g' = g ∧ i ∈ items := by
  by_cases h : g' = g
  · subst h
    simp [write]
  · simp [write, h]

@[simp] theorem mem_drop {g' : G} {i : Item K V} : i ∈ drop L g g' ↔ g' ≠ g ∧ i ∈ L g' := by
  by_cases h : g' = g
  · subst h
    simp [drop]
  · simp [drop, h]

theorem write_nil (L : Log G K V) (g : G) : write L g [] = L := by
  simp [write]

/-- A value put for a key of the store keeps the log guarded. -/
theorem Guarded.put (h : Guarded L A) (hk : k ∈ A) (g : G) (v : V) :
    Guarded (write L g [.put k v]) A := by
  rintro k' ⟨g', v', hput⟩
  rcases mem_write.mp hput with hput | ⟨-, hput⟩
  · rcases h k' ⟨g', v', hput⟩ with hA | ⟨g'', hdel⟩
    · exact .inl hA
    · exact .inr ⟨g'', mem_write.mpr (.inl hdel)⟩
  · obtain ⟨rfl, -⟩ := Item.put.inj (List.mem_singleton.mp hput)
    exact .inl hk

/-- A tombstone takes its key out of the store. -/
theorem Guarded.del (h : Guarded L A) (g : G) (k : K) :
    Guarded (write L g [.del k]) {k' ∈ A | k' ≠ k} := by
  rintro k' ⟨g', v', hput⟩
  by_cases hk : k' = k
  · subst hk
    exact .inr ⟨g, mem_write.mpr (.inr ⟨rfl, List.mem_singleton_self _⟩)⟩
  · have hold : Item.put k' v' ∈ L g' := by simpa using hput
    rcases h k' ⟨g', v', hold⟩ with hA | ⟨g'', hdel⟩
    · exact .inl ⟨hA, hk⟩
    · exact .inr ⟨g'', mem_write.mpr (.inl hdel)⟩

/-- A value put for a key that is not buried keeps the order. -/
theorem Ordered.put [LE G] (h : Ordered L) (hk : ¬Buried L k) (g : G) (v : V) :
    Ordered (write L g [.put k v]) := by
  intro g₁ g₂ k' v' hput hdel
  have hdel' : Item.del k' ∈ L g₂ := by simpa using hdel
  rcases mem_write.mp hput with hput | ⟨-, hput⟩
  · exact h g₁ g₂ k' v' hput hdel'
  · obtain ⟨rfl, -⟩ := Item.put.inj (List.mem_singleton.mp hput)
    exact absurd ⟨g₂, hdel'⟩ hk

/-- A tombstone behind every value of its key keeps the order. -/
theorem Ordered.del [LE G] (h : Ordered L) (hk : ∀ g' v, Item.put k v ∈ L g' → g' ≤ g) :
    Ordered (write L g [.del k]) := by
  intro g₁ g₂ k' v' hput hdel
  have hput' : Item.put k' v' ∈ L g₁ := by simpa using hput
  rcases mem_write.mp hdel with hold | ⟨hg, hnew⟩
  · exact h g₁ g₂ k' v' hput' hold
  · obtain rfl := Item.del.inj (List.mem_singleton.mp hnew)
    exact hg ▸ hk g₁ v' hput'

/-- A safe drop brings nothing back. -/
theorem Guarded.drop (h : Guarded L A) (hsafe : SafeDrop L g) : Guarded (drop L g) A := by
  rintro k ⟨g', v, hput⟩
  obtain ⟨hne, hold⟩ := mem_drop.mp hput
  rcases h k ⟨g', v, hold⟩ with hA | ⟨g'', hdel⟩
  · exact .inl hA
  · by_cases hg : g'' = g
    · obtain ⟨g₃, hg₃, hdel₃⟩ := hsafe k (hg ▸ hdel) g' v hne hold
      exact .inr ⟨g₃, mem_drop.mpr ⟨hg₃, hdel₃⟩⟩
    · exact .inr ⟨g'', mem_drop.mpr ⟨hg, hdel⟩⟩

theorem Ordered.drop [LE G] (h : Ordered L) (g : G) : Ordered (drop L g) := by
  intro g₁ g₂ k v hput hdel
  exact h g₁ g₂ k v (mem_drop.mp hput).2 (mem_drop.mp hdel).2

end Log

end Flotestro.Library
