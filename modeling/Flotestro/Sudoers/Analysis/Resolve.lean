import Flotestro.Sudoers.Model.Aliases

/-!
# What a resolved list says

A list is read from its end: the last item that names a thing decides, and every mark before an item
turns it round.  The expansion turns the members of an alias round when it stands behind a mark, and
does so once however many marks were met.  So the resolved list says what the list says exactly when the
aliases on the way to the item that decides carry together no mark or an odd number of marks.
-/

set_option autoImplicit false

namespace Flotestro.Sudoers

open Library List

/-! ## Reading a list -/

/-- The last of a list that is there. -/
def lastOf {α : Type} : List (Option α) → Option α
  | [] => none
  | v :: l => (lastOf l).or v

def marks (item : Bytes) : Nat := (item.takeWhile (· = mark)).length

/-- A verdict turned round by every mark of an item. -/
def signed (item : Bytes) (verdict : Option Bool) : Option Bool :=
  if marks item % 2 = 0 then verdict else verdict.map not

/-- The verdict of an item that is no alias. -/
def plain (names : Bytes → Bool) (item : Bytes) : Option Bool :=
  signed item (if names (bare item) then some true else none)

/-- The verdict of a list without aliases on the thing that the names are names of. -/
def verdict (names : Bytes → Bool) (items : List Bytes) : Option Bool := lastOf (items.map (plain names))

/-- How an item comes to decide: the marks of the aliases on the way to it, and its own. -/
structure Way where
  marks : Nat
  own : Nat

variable {t : AliasTable} {kind : Kind} {names : Bytes → Bool} {M : Bytes → Option Bool}
  {W : Bytes → Option Way} {item : Bytes} {members : List Bytes} {α : Type} {leaf : Bytes → Option α}
  {node : Bytes → Option α → Option α} {F : Bytes → Option α}

/-- The values of items over the tree of the aliases: an alias has the last value of its own list, as
the item changes it. -/
def Evaluates (t : AliasTable) (kind : Kind) (leaf : Bytes → Option α)
    (node : Bytes → Option α → Option α) (F : Bytes → Option α) : Prop :=
  ∀ item, F item = (t.members kind item).elim (leaf item)
    fun members => node item (lastOf (members.map F))

/-- In a reading an alias stands for its own list. -/
def Reads (t : AliasTable) (kind : Kind) (names : Bytes → Bool) (M : Bytes → Option Bool) : Prop :=
  Evaluates t kind (plain names) signed M

/-- The ways to the item that decides on the thing with the names. -/
def Ways (t : AliasTable) (kind : Kind) (names : Bytes → Bool) (W : Bytes → Option Way) : Prop :=
  Evaluates t kind (fun item => if names (bare item) then some ⟨0, marks item⟩ else none)
    (fun item way => way.map fun w => ⟨marks item + w.marks, w.own⟩) W

def Acyclic (t : AliasTable) (kind : Kind) (rank : Bytes → Nat) : Prop :=
  ∀ item members, t.members kind item = some members → ∀ member ∈ members,
    rank (bare member) < rank (bare item)

/-- The verdict of the item that decides, turned round by every mark. -/
def Way.upright (w : Way) : Bool := (w.marks + w.own) % 2 = 0

/-- The verdict as the expansion leaves it: the marks on the way count as one. -/
def Way.expanded (w : Way) : Bool := (min w.marks 1 + w.own) % 2 = 0

theorem head?_eq_mark_iff : item.head? = some mark ↔ marks item ≠ 0 := by
  cases item with
  | nil => simp [marks]
  | cons b item => by_cases h : b = mark <;> simp [marks, h]

@[simp] theorem bare_mark (item : Bytes) : bare (mark :: item) = bare item := by
  simp [bare]

@[simp] theorem bare_carry (item member : Bytes) : bare (carry item member) = bare member := by
  unfold carry
  split <;> simp

theorem marks_mark (item : Bytes) : marks (mark :: item) = marks item + 1 := by
  simp [marks]

theorem members_mark (item : Bytes) : t.members kind (mark :: item) = t.members kind item := by
  rw [AliasTable.members, AliasTable.members, bare_mark]

/-! ## Lists in lists -/

theorem lastOf_append (l l' : List (Option Bool)) : lastOf (l ++ l') = (lastOf l').or (lastOf l) := by
  induction l with
  | nil => simp [lastOf]
  | cons v l ih => rw [cons_append, lastOf, ih, lastOf, Option.or_assoc]

theorem lastOf_map {β : Type} (f : α → β) (l : List (Option α)) :
    lastOf (l.map (Option.map f)) = (lastOf l).map f := by
  induction l with
  | nil => rfl
  | cons v l ih => rw [map_cons, lastOf, ih, lastOf, Option.map_or]

theorem verdict_flatMap (f : Bytes → List Bytes) (items : List Bytes) :
    verdict names (items.flatMap f) = lastOf (items.map fun item => verdict names (f item)) := by
  induction items with
  | nil => rfl
  | cons item items ih =>
    rw [flatMap_cons, verdict, map_append, lastOf_append, ← verdict, ← verdict, ih, map_cons, lastOf]

/-! ## The expansion -/

theorem expand_of_none (h : t.members kind item = none) (seen : List Bytes) :
    t.expand kind seen item = [item] := by
  rw [AliasTable.expand]
  split
  · rfl
  next heq => cases h.symm.trans heq

theorem expand_of_some (h : t.members kind item = some members) {seen : List Bytes}
    (hseen : bare item ∉ seen) : t.expand kind seen item = members.flatMap fun member =>
      t.expand kind (bare item :: seen) (carry item member) := by
  rw [AliasTable.expand]
  split
  next heq => cases h.symm.trans heq
  next heq =>
    cases h.symm.trans heq
    rw [dif_neg hseen]

variable {rank : Bytes → Nat}

/-- An acyclic table has values for its items. -/
theorem exists_evaluates (hacyclic : Acyclic t kind rank) (leaf : Bytes → Option α)
    (node : Bytes → Option α → Option α) : ∃ F, Evaluates t kind leaf node F := by
  refine ⟨(measure fun item => rank (bare item)).wf.fix fun item value =>
    (t.members kind item).pelim (leaf item) fun members h =>
      node item (lastOf (members.attach.map fun member =>
        value member.1 (hacyclic item members h member.1 member.2))), fun item => ?_⟩
  rw [WellFounded.fix_eq]
  simp

/-- **Every mark on the way counts** in the list itself. -/
theorem reads_eq_upright (hacyclic : Acyclic t kind rank) (hM : Reads t kind names M)
    (hW : Ways t kind names W) (item : Bytes) : M item = (W item).map Way.upright := by
  induction hn : rank (bare item) using Nat.strong_induction_on generalizing item with
  | _ n ih =>
    subst hn
    rw [hM, hW item]
    cases hmembers : t.members kind item with
    | none =>
      rw [Option.elim_none, plain, signed]
      by_cases hname : names (bare item) = true <;>
        rcases Nat.mod_two_eq_zero_or_one (marks item) with h | h <;> simp [h, Way.upright]
    | some members =>
      have hvalues : members.map M = (members.map W).map (Option.map Way.upright) := by
        rw [map_map]
        refine map_congr_left fun member hmember => ?_
        exact ih _ (hacyclic item members hmembers member hmember) member rfl
      rw [Option.elim_some, Option.elim_some, hvalues, lastOf_map, signed]
      cases lastOf (members.map W) with
      | none => simp
      | some w =>
        rcases Nat.mod_two_eq_zero_or_one (marks item) with h | h <;>
          rcases Nat.mod_two_eq_zero_or_one (w.marks + w.own) with h' | h' <;>
          simp [Way.upright, h, h', Nat.add_assoc, Nat.add_mod]

/-- A mark before an item is one of its own, or the first on the way. -/
theorem Ways.mark (hW : Ways t kind names W) (item : Bytes) :
    (W (mark :: item)).map Way.expanded = (W item).map fun w => decide ((1 + w.own) % 2 = 0) := by
  rw [hW, hW item, members_mark]
  cases t.members kind item with
  | none =>
    simp only [Option.elim_none, bare_mark, marks_mark]
    by_cases hname : names (bare item) = true <;> simp [hname, Way.expanded, Nat.add_comm]
  | some members =>
    rw [Option.elim_some, Option.elim_some, Option.map_map, Option.map_map, marks_mark]
    congr 1
    funext w
    have hmin : min (marks item + 1 + w.marks) 1 = 1 := by omega
    simp [Way.expanded, hmin]

/-- **The marks on the way count as one** in the expansion. -/
theorem verdict_expand (hacyclic : Acyclic t kind rank) (hW : Ways t kind names W) (item : Bytes) :
    ∀ seen : List Bytes, (∀ name ∈ seen, rank (bare item) < rank name) →
      verdict names (t.expand kind seen item) = (W item).map Way.expanded := by
  induction hn : rank (bare item) using Nat.strong_induction_on generalizing item with
  | _ n ih =>
    subst hn
    intro seen hseen
    cases hmembers : t.members kind item with
    | none =>
      rw [expand_of_none hmembers, hW item, hmembers, verdict, map_singleton, plain,
        signed]
      by_cases hname : names (bare item) = true <;>
        rcases Nat.mod_two_eq_zero_or_one (marks item) with h | h <;>
        simp [h, Way.expanded, lastOf]
    | some members =>
      have hnext : ∀ member ∈ members,
          verdict names (t.expand kind (bare item :: seen) (carry item member)) =
            (W (carry item member)).map Way.expanded := by
        intro member hmember
        have hrank := hacyclic item members hmembers member hmember
        rw [← bare_carry item member] at hrank
        refine ih _ hrank _ rfl _ (forall_mem_cons.mpr ⟨hrank, fun name hname => ?_⟩)
        exact hrank.trans (hseen name hname)
      rw [expand_of_some hmembers fun hmem => Nat.lt_irrefl _ (hseen _ hmem), verdict_flatMap, hW item,
        hmembers, Option.elim_some, map_congr_left hnext, Option.map_map]
      by_cases hmarks : marks item = 0
      · have hcarry : ∀ member, carry item member = member :=
          fun member => if_neg fun h => head?_eq_mark_iff.mp h hmarks
        simp only [hcarry, hmarks, Nat.zero_add, ← lastOf_map, map_map]
        rfl
      · have hcarry : ∀ member, carry item member = mark :: member :=
          fun member => if_pos (head?_eq_mark_iff.mpr hmarks)
        simp only [hcarry, hW.mark, ← lastOf_map, map_map]
        congr 1
        refine map_congr_left fun member _ => ?_
        simp only [Function.comp_apply]
        congr 1
        funext w
        have hmin : min (marks item + w.marks) 1 = 1 := by omega
        simp [Way.expanded, hmin]

/-- The marks on the way may count as one where there is none, or an odd number. -/
theorem Way.expanded_eq_upright_iff (w : Way) :
    w.expanded = w.upright ↔ w.marks = 0 ∨ w.marks % 2 = 1 := by
  rw [Way.expanded, Way.upright, decide_eq_decide]
  omega

/-- **A resolved list says what the list says** on a thing, exactly when the aliases on the way to the
item that decides carry together no mark or an odd number of marks. -/
theorem resolve_reads_iff (t : AliasTable) (kind : Kind) (names : Bytes → Bool)
    (hacyclic : ∃ rank, Acyclic t kind rank) :
    (∃ M, Reads t kind names M) ∧ (∃ W, Ways t kind names W) ∧
      ∀ M W, Reads t kind names M → Ways t kind names W → ∀ items : List Bytes,
        (verdict names (t.resolve kind items) = lastOf (items.map M) ↔
          ∀ w ∈ lastOf (items.map W), w.marks = 0 ∨ w.marks % 2 = 1) := by
  obtain ⟨rank, hacyclic⟩ := hacyclic
  refine ⟨exists_evaluates hacyclic _ _, exists_evaluates hacyclic _ _, fun M W hM hW items => ?_⟩
  have hresolved : verdict names (t.resolve kind items) = (lastOf (items.map W)).map Way.expanded := by
    rw [AliasTable.resolve, verdict_flatMap, ← lastOf_map, map_map]
    congr 1
    refine map_congr_left fun item _ => ?_
    exact verdict_expand hacyclic hW item [] fun _ h => absurd h not_mem_nil
  have hread : lastOf (items.map M) = (lastOf (items.map W)).map Way.upright := by
    rw [← lastOf_map, map_map]
    congr 1
    exact map_congr_left fun item _ => reads_eq_upright hacyclic hM hW item
  rw [hresolved, hread]
  cases lastOf (items.map W) with
  | none => simp
  | some w => simp [Way.expanded_eq_upright_iff]

def word (s : String) : Bytes := ascii s.toList

/-- One alias, for `x`. -/
def oneAlias : AliasTable := fun _ => (∅ : AList _).insert (word "A") [word "x"]

theorem members_oneAlias (h : oneAlias.members .user item = some members) :
    bare item = word "A" ∧ members = [word "x"] := by
  unfold AliasTable.members at h
  split at h
  · cases h
  by_cases hitem : bare item = word "A"
  · rw [hitem] at h
    exact ⟨hitem, (Option.some.inj h).symm⟩
  · rw [oneAlias, AList.lookup_insert_ne hitem] at h
    cases h

theorem acyclic_oneAlias : Acyclic oneAlias .user fun name => if name = word "A" then 1 else 0 := by
  intro item members h
  obtain ⟨hitem, rfl⟩ := members_oneAlias h
  rw [hitem]
  decide

/-- An alias behind three marks is turned round as it should be. -/
theorem resolve_reads_iff_negated : ∃ M, Reads oneAlias .user (· = word "x") M ∧
    verdict (· = word "x") (oneAlias.resolve .user [word "!!!A"]) = lastOf ([word "!!!A"].map M) := by
  obtain ⟨⟨M, hM⟩, ⟨W, hW⟩, hreads⟩ :=
    resolve_reads_iff oneAlias .user (· = word "x") ⟨_, acyclic_oneAlias⟩
  refine ⟨M, hM, (hreads M W hM hW _).mpr ?_⟩
  rw [map_singleton, hW, show oneAlias.members .user (word "!!!A") = some [word "x"] from rfl,
    Option.elim_some, map_singleton, hW]
  rintro w ⟨⟩
  exact .inr rfl

/-- An alias behind two marks is turned round once: who it allows is denied. -/
theorem double_mark_denies : ∃ M, Reads oneAlias .user (· = word "x") M ∧
    verdict (· = word "x") (oneAlias.resolve .user [word "!!A"]) = some false ∧
      lastOf ([word "!!A"].map M) = some true := by
  obtain ⟨M, hM⟩ : ∃ M, Reads oneAlias .user (· = word "x") M :=
    exists_evaluates acyclic_oneAlias _ _
  have hresolve : oneAlias.resolve .user [word "!!A"] = [word "!x"] := by
    rw [AliasTable.resolve, flatMap_singleton, expand_of_some rfl (by simp), flatMap_singleton,
      expand_of_none rfl]
    rfl
  refine ⟨M, hM, by rw [hresolve]; decide, ?_⟩
  rw [map_singleton, hM, show oneAlias.members .user (word "!!A") = some [word "x"] from rfl,
    Option.elim_some, map_singleton, hM]
  rfl

end Flotestro.Sudoers
