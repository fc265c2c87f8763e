import Flotestro.Library.Runs
import Flotestro.Authz.Interface.Query

/-!
# Lists show what the decision admits

The condition of a list of scopes is true of a row where one of the scopes matches the target of that
row, and in two more cases: a team is compared as an identifier and not as a text, and an empty owner is
equal to none.  Every category is a builder that adds its arguments behind the others, so that each is
read alone: `Yields` says what a builder's parts bind and decide, whatever arguments follow.
-/

set_option autoImplicit false

namespace Flotestro.Authz

open Library List

/-! ## Three values -/

theorem sqlAnd_true (a b : Option Bool) : sqlAnd a b = some true ↔ a = some true ∧ b = some true := by
  rcases a with _ | _ | _ <;> rcases b with _ | _ | _ <;> decide

theorem sqlOr_true (a b : Option Bool) : sqlOr a b = some true ↔ a = some true ∨ b = some true := by
  rcases a with _ | _ | _ <;> rcases b with _ | _ | _ <;> decide

section

variable {ι : Type} [DecidableEq ι] {db : Database ι} {row : Row ι}

variable {f : Builder} {b c ok ok' : Bool} {column : Str} {columns : Columns} {args before : List Arg}
variable {s : Scope} {conditions : List (List Part)} {values : List Str} {host : HostRow ι}
variable {scopes : List Scope}

theorem conditionValue_true {parts : List Part} : conditionValue db row args parts = some true ↔
      ∀ part ∈ parts, part.value db row args = some true := by
  unfold conditionValue
  induction parts with
  | nil => simp
  | cons part parts ih =>
    rw [map_cons, foldr_cons, sqlAnd_true, ih, forall_mem_cons]

theorem disjunction_true :
    (conditions.map (conditionValue db row args)).foldr sqlOr (some false) = some true ↔
      ∃ parts ∈ conditions, conditionValue db row args parts = some true := by
  induction conditions with
  | nil => simp
  | cons parts conditions ih =>
    rw [map_cons, foldr_cons, sqlOr_true, ih, exists_mem_cons_iff]

/-- The parts bind where `ok` and decide `b`, with whatever stands before and behind their arguments. -/
def Yields (db : Database ι) (row : Row ι) (before : List Arg) (f : Builder) (ok b : Bool) : Prop :=
  ∀ args, ∃ more, (f args).2 = args ++ more ∧ ∀ after,
    ((∀ part ∈ (f args).1, part.binds db (before ++ (args ++ more ++ after)) = true) ↔ ok = true) ∧
    ((∀ part ∈ (f args).1, part.value db row (before ++ (args ++ more ++ after)) = some true) ↔
      b = true)

theorem Yields.andThen {g : Builder} (hf : Yields db row before f ok b)
    (hg : Yields db row before g ok' c) : Yields db row before (f.andThen g) (ok && ok') (b && c) := by
  intro args
  obtain ⟨more, hargs, hmore⟩ := hf args
  obtain ⟨more', hargs', hmore'⟩ := hg (f args).2
  refine ⟨more ++ more', ?_, fun after => ?_⟩
  · rw [Builder.andThen, hargs', hargs, append_assoc]
  · obtain ⟨hbinds, hvalue⟩ := hmore (more' ++ after)
    obtain ⟨hbinds', hvalue'⟩ := hmore' after
    have hassoc : args ++ more ++ (more' ++ after) = args ++ (more ++ more') ++ after := by
      simp
    rw [hassoc] at hbinds hvalue
    rw [hargs, append_assoc args more more'] at hbinds' hvalue'
    unfold Builder.andThen
    refine ⟨?_, ?_⟩
    · rw [forall_mem_append, hbinds, Bool.and_eq_true, ← hbinds', hargs]
    · rw [forall_mem_append, hvalue, Bool.and_eq_true, ← hvalue', hargs]

theorem Yields.congr (h : Yields db row before f ok b) (hok : ok' = ok) (hc : c = b) :
    Yields db row before f ok' c := by
  rw [hok, hc]
  exact h

theorem Yields.nothing (before : List Arg) (h : ∀ args, f args = ([], args)) :
    Yields db row before f true true := by
  intro args
  rw [h]
  exact ⟨[], (append_nil args).symm, fun after => ⟨by simp, by simp⟩⟩

theorem Yields.never (before : List Arg) (h : ∀ args, f args = ([.never], args)) :
    Yields db row before f true false := by
  intro args
  rw [h]
  refine ⟨[], (append_nil args).symm, fun after => ⟨?_, ?_⟩⟩
  · simp [Part.binds]
  · simp [Part.value]

theorem Yields.part (before : List Arg) (part : Nat → Part) (arg : Arg)
    (h : ∀ args, f args = ([part (before.length + (args.length + 1))], args ++ [arg]))
    (hbinds : ∀ args n, argument args n = some arg → ((part n).binds db args = true ↔ ok = true))
    (hvalue : ∀ args n, argument args n = some arg →
      ((part n).value db row args = some true ↔ b = true)) : Yields db row before f ok b := by
  intro args
  rw [h]
  refine ⟨[arg], rfl, fun after => ?_⟩
  have harg : argument (before ++ (args ++ [arg] ++ after)) (before.length + (args.length + 1)) =
      some arg := by
    unfold argument
    rw [show before.length + (args.length + 1) - 1 = before.length + args.length by omega,
      getElem?_append_right (by omega), Nat.add_sub_cancel_left, append_assoc,
      getElem?_append_right (le_refl _), Nat.sub_self]
    rfl
  refine ⟨?_, ?_⟩
  · simpa using hbinds _ _ harg
  · simpa using hvalue _ _ harg

/-! ## Categories -/

/-- The row has the values of the host in the columns there are. -/
structure Names (columns : Columns) (host : HostRow ι) (row : Row ι) : Prop where
  site : columns.site ≠ [] → row columns.site = some (.text (some host.site))
  environment : columns.environment ≠ [] →
    row columns.environment = some (.text (some host.environment))
  team : columns.team ≠ [] → row columns.team = some (.uuid host.team)
  owner : columns.owner ≠ [] → row columns.owner = some (.text host.owner)
  tags : columns.tags ≠ [] → row columns.tags = some (.texts host.tags)

/-- The scope narrows by no category without a column. -/
def Scope.expressible (s : Scope) (columns : Columns) : Bool :=
  (s.site = wildcard || columns.site ≠ []) && (s.environment = wildcard || columns.environment ≠ []) &&
    (s.teamAny || columns.team ≠ []) && (hasWildcard s.owners || columns.owner ≠ []) &&
      (hasWildcard s.tags || columns.tags ≠ [])

/-- The database takes the values that the scope is compared by. -/
def Scope.binds (db : Database ι) (columns : Columns) (s : Scope) : Bool :=
  (s.site = wildcard || (s.site = [] ∨ columns.site = []) || db.accepts s.site) &&
    (s.environment = wildcard || (s.environment = [] ∨ columns.environment = []) ||
      db.accepts s.environment) &&
    (s.teamAny || (s.team = [] ∨ columns.team = []) || (db.readUuid s.team).isSome) &&
    (hasWildcard s.owners || columns.owner = [] || s.owners.all db.accepts) &&
    (hasWildcard s.tags || columns.tags = [] || s.tags.all db.accepts)

/-- The scope is of the team, in any spelling. -/
def Scope.namesTeam (db : Database ι) (s : Scope) (team : Option ι) : Bool :=
  s.teamAny || s.team ≠ [] && team.isSome && db.readUuid s.team = team

/-- The scope lists the owner, an empty one for a host without. -/
def Scope.listsOwner (s : Scope) (owner : Option Str) : Bool :=
  hasWildcard s.owners || s.owners.contains (owner.getD [])

/-- What the condition of a scope admits. -/
def Scope.shown (db : Database ι) (columns : Columns) (host : HostRow ι) (s : Scope) : Bool :=
  s.expressible columns && (matchesValue s.site host.site && matchesValue s.environment host.environment &&
    s.namesTeam db host.team && s.listsOwner host.owner && matchesAny s.tags (host.tags.getD []))

theorem yields_dimension (before : List Arg) {value cell : Str}
    (hcell : column ≠ [] → row column = some (.text (some cell))) :
    Yields db row before (dimension column value before.length)
      (value = wildcard || (value = [] ∨ column = []) || db.accepts value)
      ((value = wildcard || column ≠ []) && matchesValue value cell) := by
  unfold matchesValue
  by_cases hwild : value = wildcard
  · simpa [hwild] using Yields.nothing before fun args => by rw [dimension, if_pos rfl]
  rw [if_neg hwild]
  by_cases hempty : value = [] ∨ column = []
  · refine (Yields.never before fun args => ?_).congr (by simp [hempty]) ?_
    · rw [dimension, if_neg hwild, if_pos hempty]
    · rcases hempty with h | h <;> simp [h, hwild]
  · obtain ⟨hvalue, hcolumn⟩ := not_or.mp hempty
    refine Yields.part before (.equals column) (.text value) ?_ ?_ ?_
    · intro args
      rw [dimension, if_neg hwild, if_neg hempty]
    · intro args n harg
      rw [Part.binds, harg]
      simp [hwild, hvalue, hcolumn]
    · intro args n harg
      rw [Part.value, hcell hcolumn, harg]
      simp [hvalue, hcolumn, eq_comm]

theorem yields_teamPart (before : List Arg) {cell : Option ι}
    (hcell : column ≠ [] → row column = some (.uuid cell)) :
    Yields db row before (teamPart column s before.length)
      (s.teamAny || (s.team = [] ∨ column = []) || (db.readUuid s.team).isSome)
      ((s.teamAny || column ≠ []) && s.namesTeam db cell) := by
  unfold Scope.namesTeam
  by_cases hany : s.teamAny = true
  · simpa [hany] using Yields.nothing before fun args => by rw [teamPart, if_pos hany]
  by_cases hempty : s.team = [] ∨ column = []
  · refine (Yields.never before fun args => ?_).congr (by simp [hempty]) ?_
    · rw [teamPart, if_neg hany, if_pos hempty]
    · rcases hempty with h | h <;> simp [h, hany]
  · obtain ⟨hvalue, hcolumn⟩ := not_or.mp hempty
    refine Yields.part before (.equalsUuid column) (.text s.team) ?_ ?_ ?_
    · intro args
      rw [teamPart, if_neg hany, if_neg hempty]
    · intro args n harg
      rw [Part.binds, harg]
      simp [hany, hvalue, hcolumn]
    · intro args n harg
      rw [Part.value, hcell hcolumn, harg]
      cases cell with
      | none => simp [hany]
      | some u => simp [hany, hvalue, hcolumn, eq_comm]

theorem matchesAny_of_hasWildcard {granted : List Str} (h : hasWildcard granted = true)
    (target : List Str) : matchesAny granted target = true := by
  obtain ⟨value, hmem, hvalue⟩ := any_eq_true.mp h
  unfold matchesAny
  rw [if_neg (length_pos_of_mem hmem).ne']
  exact any_eq_true.mpr ⟨value, hmem, by simp [of_decide_eq_true hvalue]⟩

theorem matchesAny_iff {granted : List Str} (h : hasWildcard granted = false) (target : List Str) :
    matchesAny granted target = true ↔ ∃ value ∈ granted, value ∈ target := by
  have hwild : ∀ value ∈ granted, value ≠ wildcard := by
    intro value hmem
    simpa using any_eq_false.mp h value hmem
  unfold matchesAny
  by_cases hempty : granted.length = 0
  · simp [length_eq_zero_iff.mp hempty]
  rw [if_neg hempty, any_eq_true]
  refine exists_congr fun value => and_congr_right fun hmem => ?_
  simp [hwild value hmem]

theorem yields_listPart (before : List Arg) {array : Bool} {lists : Bool}
    (hvalue : hasWildcard values = false → column ≠ [] → ∀ args n,
      argument args n = some (.texts values) →
      ((if array then Part.overlaps column n else .anyOf column n).value db row args = some true ↔
        lists = true))
    (hnone : values.length = 0 → lists = false) :
    Yields db row before (listPart column values array before.length)
      (hasWildcard values || column = [] || values.all db.accepts)
      ((hasWildcard values || column ≠ []) && (hasWildcard values || lists)) := by
  by_cases hwild : hasWildcard values = true
  · simpa [hwild] using Yields.nothing before fun args => by rw [listPart, listSQL, if_pos hwild]
  rw [Bool.not_eq_true] at hwild
  by_cases hempty : values.length = 0 ∨ column = []
  · refine (Yields.never before fun args => ?_).congr ?_ ?_
    · rw [listPart, listSQL, if_neg (by simp [hwild]), if_pos hempty]
      simp
    · rcases hempty with h | h
      · simp [length_eq_zero_iff.mp h]
      · simp [h]
    · rcases hempty with h | h <;> simp [h, hwild, hnone]
  · obtain ⟨hlength, hcolumn⟩ := not_or.mp hempty
    refine Yields.part before (fun n => if array then .overlaps column n else .anyOf column n)
      (.texts values) ?_ ?_ ?_
    · intro args
      rw [listPart, listSQL, if_neg (by simp [hwild]), if_neg hempty]
      cases array <;> rfl
    · intro args n harg
      cases array <;> simp [Part.binds, harg, hwild, hcolumn]
    · intro args n harg
      rw [hvalue hwild hcolumn args n harg]
      simp [hwild, hcolumn]

theorem yields_owners (before : List Arg) (hcell : column ≠ [] → row column = some (.text host.owner)) :
    Yields db row before (listPart column s.owners false before.length)
      (hasWildcard s.owners || column = [] || s.owners.all db.accepts)
      ((hasWildcard s.owners || column ≠ []) && s.listsOwner host.owner) := by
  refine yields_listPart before (fun _ hcolumn args n harg => ?_) fun hlength => ?_
  · rw [if_neg (by simp), Part.value, hcell hcolumn, harg]
    simp
  · rw [length_eq_zero_iff.mp hlength]
    rfl

/-- A list of alternatives is the wildcard, or has a value of the target. -/
theorem matchesAny_eq (granted target : List Str) :
    matchesAny granted target = (hasWildcard granted || target.any granted.contains) := by
  cases hwild : hasWildcard granted with
  | true => exact matchesAny_of_hasWildcard hwild target
  | false =>
    rw [Bool.eq_iff_iff, matchesAny_iff hwild, Bool.false_or, any_eq_true]
    simp only [contains_iff_mem]
    exact ⟨fun ⟨value, h, h'⟩ => ⟨value, h', h⟩, fun ⟨value, h, h'⟩ => ⟨value, h', h⟩⟩

theorem yields_tags (before : List Arg) {cell : Option (List Str)}
    (hcell : column ≠ [] → row column = some (.texts cell)) :
    Yields db row before (listPart column values true before.length)
      (hasWildcard values || column = [] || values.all db.accepts)
      ((hasWildcard values || column ≠ []) && matchesAny values (cell.getD [])) := by
  rw [matchesAny_eq]
  refine yields_listPart before (fun _ hcolumn args n harg => ?_) fun hlength => ?_
  · rw [if_pos rfl, Part.value, hcell hcolumn, harg, Option.some.injEq]
  · rw [length_eq_zero_iff.mp hlength]
    simp

theorem yields_scopeParts (before : List Arg) (hnames : Names columns host row) :
    Yields db row before (scopeParts s columns before.length) (s.binds db columns)
      (s.shown db columns host) := by
  have hparts : Yields db row before (scopeParts s columns before.length) _ _ :=
    (yields_dimension before hnames.site).andThen <|
      (yields_dimension before hnames.environment).andThen <|
        (yields_teamPart before hnames.team).andThen <|
          (yields_owners before hnames.owner).andThen <| yields_tags before hnames.tags
  refine hparts.congr ?_ ?_
  · simp only [Scope.binds, Bool.and_assoc]
  · -- the categories stand in another order than the two questions about them
    unfold Scope.shown Scope.expressible
    rw [Bool.eq_iff_iff]
    simp only [Bool.and_eq_true]
    tauto

/-- A scope without parts narrows by nothing. -/
theorem covers_of_no_parts {offset : Nat} (h : (scopeParts s columns offset args).1.length = 0) :
    s.covers = true := by
  have hdimension : ∀ {column value : Str} {args : List Arg},
      (dimension column value offset args).1 = [] → value = wildcard := by
    intro column value args h
    by_contra hwild
    rw [dimension, if_neg hwild] at h
    split at h <;> cases h
  have hteam : ∀ {args : List Arg}, (teamPart columns.team s offset args).1 = [] → s.teamAny = true := by
    intro args h
    by_contra hany
    rw [teamPart, if_neg hany] at h
    split at h <;> cases h
  have hlist : ∀ {column : Str} {values : List Str} {array : Bool} {args : List Arg},
      (listPart column values array offset args).1 = [] → hasWildcard values = true := by
    intro column values array args h
    by_contra hwild
    rw [listPart, listSQL, if_neg hwild] at h
    split at h
    next hnone => split at hnone <;> [cases hnone; (split at hnone <;> cases hnone)]
    · cases h
  unfold scopeParts Builder.andThen at h
  simp only [length_append, Nat.add_eq_zero_iff, length_eq_zero_iff] at h
  obtain ⟨hs, he, ht, ho, hg⟩ := h
  simp [Scope.covers, hdimension hs, hdimension he, hteam ht, hlist ho, hlist hg]

theorem admits_of_covers (h : s.covers = true) (columns : Columns) (target : Scope) :
    (s.expressible columns && s.matchesTarget target) = true := by
  unfold Scope.covers at h
  simp only [Bool.and_eq_true] at h
  obtain ⟨⟨⟨⟨hsite, henv⟩, hteam⟩, howners⟩, htags⟩ := h
  simp [Scope.expressible, Scope.matchesTarget, matchesValue, Scope.matchesTeam, hsite, henv, hteam,
    howners, htags, matchesAny_of_hasWildcard]

/-- The conditions so far bind where `ok` and decide `b`, whatever arguments follow. -/
def Built (db : Database ι) (row : Row ι) (before args : List Arg) (conditions : List (List Part))
    (ok b : Bool) : Prop :=
  ∀ after, ((∀ parts ∈ conditions, ∀ part ∈ parts, part.binds db (before ++ (args ++ after)) = true) ↔
      ok = true) ∧
    ((∃ parts ∈ conditions, conditionValue db row (before ++ (args ++ after)) parts = some true) ↔
      b = true)

theorem Built.concat {more : List Arg} {parts : List Part}
    (h : Built db row before args conditions ok b)
    (hparts : ∀ after,
      ((∀ part ∈ parts, part.binds db (before ++ (args ++ more ++ after)) = true) ↔ ok' = true) ∧
      ((∀ part ∈ parts, part.value db row (before ++ (args ++ more ++ after)) = some true) ↔
        c = true)) :
    Built db row before (args ++ more) (conditions ++ [parts]) (ok && ok') (b || c) := by
  intro after
  obtain ⟨hbinds, hvalue⟩ := h (more ++ after)
  rw [← append_assoc args more after] at hbinds hvalue
  obtain ⟨hbinds', hvalue'⟩ := hparts after
  refine ⟨?_, ?_⟩
  · rw [forall_mem_append, forall_mem_singleton, hbinds, hbinds', Bool.and_eq_true]
  · rw [Bool.or_eq_true, ← hvalue, ← hvalue', ← conditionValue_true]
    simp

theorem Built.shows (h : Built db row before args conditions ok b) (after : List Arg) :
    (Clause.any conditions).shows db row (before ++ (args ++ after)) = if ok then some b else none := by
  obtain ⟨hbinds, hvalue⟩ := h after
  have hok : (conditions.all fun parts => parts.all (Part.binds db (before ++ (args ++ after)))) = ok := by
    rw [Bool.eq_iff_iff, ← hbinds]
    simp
  rw [Clause.shows, hok]
  split
  · congr 1
    rw [Bool.eq_iff_iff, decide_eq_true_iff, disjunction_true, hvalue]
  · rfl

/-- The scopes that are left join those the conditions were built of. -/
theorem shows_scopeConditions (hnames : Names columns host row) (before : List Arg) :
    ∀ {conditions : List (List Part)} {args : List Arg} {ok b : Bool},
      Built db row before args conditions ok b → ∀ after,
      (scopeConditions columns before.length scopes conditions args).1.shows db row
          (before ++ ((scopeConditions columns before.length scopes conditions args).2 ++ after)) =
        if scopes.any Scope.covers then some true
        else if ok && scopes.all (Scope.binds db columns) then
          some (b || scopes.any (Scope.shown db columns host))
        else none := by
  induction scopes with
  | nil =>
    intro conditions args ok b hbuilt after
    rw [scopeConditions]
    simpa using hbuilt.shows after
  | cons s scopes ih =>
    intro conditions args ok b hbuilt after
    obtain ⟨more, hargs, hmore⟩ := yields_scopeParts before hnames args
    by_cases hcovers : s.covers = true
    · rw [scopeConditions, any_cons, hcovers]
      simp [Clause.shows]
    rw [scopeConditions, if_neg hcovers, if_neg fun h => hcovers (covers_of_no_parts h), hargs,
      ih (hbuilt.concat hmore) after]
    simp [hcovers, Bool.and_assoc, Bool.or_assoc]

/-- A condition with no column for what its scopes narrow by shows nothing. -/
theorem never_of_not_expressible (offset : Nat) (args : List Arg)
    (h : s.expressible columns = false) : Part.never ∈ (scopeParts s columns offset args).1 := by
  have hdimension : ∀ {column value : Str} (args : List Arg),
      (value = wildcard || column ≠ [] : Bool) = false →
      Part.never ∈ (dimension column value offset args).1 := by
    intro column value args h
    simp only [Bool.or_eq_false_iff, decide_eq_false_iff_not, not_not] at h
    rw [dimension, if_neg h.1, if_pos (.inr h.2)]
    exact mem_singleton_self _
  have hlist : ∀ {column : Str} {values : List Str} (array : Bool) (args : List Arg),
      (hasWildcard values || column ≠ [] : Bool) = false →
      Part.never ∈ (listPart column values array offset args).1 := by
    intro column values array args h
    simp only [Bool.or_eq_false_iff, decide_eq_false_iff_not, not_not] at h
    rw [listPart, listSQL, if_neg (by simp [h.1]), if_pos (.inr h.2)]
    exact mem_singleton_self _
  unfold scopeParts Builder.andThen
  simp only [mem_append]
  unfold Scope.expressible at h
  simp only [Bool.and_eq_false_iff] at h
  rcases h with (((hsite | henv) | hteam) | howners) | htags
  · exact .inl (hdimension _ hsite)
  · exact .inr (.inl (hdimension _ henv))
  · simp only [Bool.or_eq_false_iff, decide_eq_false_iff_not, not_not] at hteam
    refine .inr (.inr (.inl ?_))
    rw [teamPart, if_neg (by simp [hteam.1]), if_pos (.inr hteam.2)]
    exact mem_singleton_self _
  · exact .inr (.inr (.inr (.inl (hlist false _ howners))))
  · exact .inr (.inr (.inr (.inr (hlist true _ htags))))

theorem shows_scopeConditions_of_never {offset : Nat} :
    ∀ {conditions : List (List Part)} {args : List Arg},
      (∀ s ∈ scopes, s.expressible columns = false) → (∀ parts ∈ conditions, Part.never ∈ parts) →
      ∀ all, (scopeConditions columns offset scopes conditions args).1.shows db row all ≠ some true := by
  induction scopes with
  | nil =>
    intro conditions args _ hnever all h
    obtain ⟨-, h⟩ := of_then h nofun
    rw [Option.some.injEq, decide_eq_true_iff, disjunction_true] at h
    obtain ⟨parts, hparts, hvalue⟩ := h
    have hfalse := conditionValue_true.mp hvalue _ (hnever parts hparts)
    cases hfalse
  | cons s scopes ih =>
    intro conditions args hscopes hnever all
    have hs := hscopes s mem_cons_self
    have hmem := never_of_not_expressible offset args hs
    have hcovers : ¬s.covers = true := by
      intro h
      have hadmits := admits_of_covers h columns s
      rw [hs] at hadmits
      cases hadmits
    rw [scopeConditions, if_neg hcovers, if_neg (length_pos_of_mem hmem).ne']
    refine ih (fun s' h => hscopes s' (mem_cons_of_mem s h)) ?_ all
    intro parts hparts
    rcases mem_append.mp hparts with hparts | hparts
    · exact hnever parts hparts
    · exact mem_singleton.mp hparts ▸ hmem

omit [DecidableEq ι] in
theorem names_hostColumns (table : Str) (host : HostRow ι) :
    Names (hostColumns table) host (host.row table) := by
  have hnodup : ([ascii "site".toList, ascii "environment".toList, ascii "team_id".toList,
      ascii "owner".toList, ascii "tags".toList].map
        fun name => (if table ≠ [] then table ++ ascii ".".toList else table) ++ name).Nodup :=
    Nodup.map (append_right_injective _) (by decide)
  change [(hostColumns table).site, (hostColumns table).environment, (hostColumns table).team,
    (hostColumns table).owner, (hostColumns table).tags].Nodup at hnodup
  simp only [nodup_cons, mem_cons, not_or] at hnodup
  obtain ⟨⟨hse, hst, hso, hsg, -⟩, ⟨het, heo, heg, -⟩, ⟨hto, htg, -⟩, ⟨hog, -⟩, -⟩ := hnodup
  refine ⟨fun _ => ?_, fun _ => ?_, fun _ => ?_, fun _ => ?_, fun _ => ?_⟩ <;> unfold HostRow.row
  · rw [if_pos rfl]
  · rw [if_neg (Ne.symm hse), if_pos rfl]
  · rw [if_neg (Ne.symm hst), if_neg (Ne.symm het), if_pos rfl]
  · rw [if_neg (Ne.symm hso), if_neg (Ne.symm heo), if_neg (Ne.symm hto), if_pos rfl]
  · rw [if_neg (Ne.symm hsg), if_neg (Ne.symm heg), if_neg (Ne.symm htg), if_neg (Ne.symm hog),
      if_pos rfl]

/-- **What a list shows.** -/
theorem shows_scopeSQL (hnames : Names columns host row) (before after : List Arg) :
    (scopeSQL scopes columns before.length).1.shows db row
        (before ++ ((scopeSQL scopes columns before.length).2 ++ after)) =
      if scopes.any Scope.covers then some true
      else if scopes.all (Scope.binds db columns) then some (scopes.any (Scope.shown db columns host))
      else none := by
  unfold scopeSQL
  by_cases hscopes : scopes.length = 0
  · rw [length_eq_zero_iff.mp hscopes]
    rfl
  · have hbuilt : Built db row before [] [] true false := fun after => ⟨by simp, by simp⟩
    rw [if_neg hscopes, shows_scopeConditions hnames before hbuilt after]
    simp

/-- What a scope matches and can be compared by, it admits. -/
theorem shown_of_matches
    (h : (s.expressible columns && s.matchesTarget (host.target db)) = true) :
    s.shown db columns host = true := by
  unfold Scope.matchesTarget HostRow.target targetOf at h
  simp only [Bool.and_eq_true] at h
  obtain ⟨hexpressible, ⟨⟨⟨hsite, henvironment⟩, hteam⟩, howner⟩, htags⟩ := h
  have hnames : s.namesTeam db host.team = true := by
    unfold Scope.matchesTeam at hteam
    unfold Scope.namesTeam
    split at hteam
    next hany => simp [hany]
    · cases hcell : host.team with
      | none => simp [hcell] at hteam
      | some u =>
        simp only [hcell, Option.map_some, Option.getD_some, Bool.and_eq_true,
          decide_eq_true_eq] at hteam
        simp [hteam.1, hteam.2 ▸ db.readUuid_writeUuid u]
  have hlists : s.listsOwner host.owner = true := by
    rw [matchesAny_eq] at howner
    unfold Scope.listsOwner
    cases hwild : hasWildcard s.owners with
    | true => rfl
    | false =>
      rw [hwild] at howner
      split at howner
      · simpa using howner
      · cases howner
  simp only [Scope.shown, hexpressible, hsite, henvironment, hnames, hlists, htags, Bool.and_self]

/-- A scope that covers everything is listed; or the database takes the values of all scopes, and
what a scope admits, the team in another spelling or an empty owner for none included, a scope
matches. -/
def Told (db : Database ι) (columns : Columns) (host : HostRow ι) (scopes : List Scope) : Prop :=
  (∃ s ∈ scopes, s.covers = true) ∨ (∀ s ∈ scopes, s.binds db columns = true) ∧
    ∀ s ∈ scopes, s.shown db columns host = true →
      ∃ s' ∈ scopes, (s'.expressible columns && s'.matchesTarget (host.target db)) = true

theorem shows_scopeSQL_iff (hnames : Names columns host row) (before after : List Arg) :
    (scopeSQL scopes columns before.length).1.shows db row
        (before ++ ((scopeSQL scopes columns before.length).2 ++ after)) =
      some (scopes.any fun s => s.expressible columns && s.matchesTarget (host.target db)) ↔
    Told db columns host scopes := by
  rw [shows_scopeSQL hnames before after, Told]
  by_cases hcovers : ∃ s ∈ scopes, s.covers = true
  · obtain ⟨s, hs, hall⟩ := hcovers
    rw [if_pos (any_eq_true.mpr ⟨s, hs, hall⟩),
      any_eq_true.mpr ⟨s, hs, admits_of_covers hall columns _⟩]
    exact ⟨fun _ => .inl ⟨s, hs, hall⟩, fun _ => rfl⟩
  rw [if_neg fun h => hcovers (any_eq_true.mp h), or_iff_right hcovers]
  by_cases hbinds : ∀ s ∈ scopes, s.binds db columns = true
  · rw [if_pos (all_eq_true.mpr hbinds), Option.some.injEq, Bool.eq_iff_iff, any_eq_true, any_eq_true]
    refine ⟨fun h => ⟨hbinds, fun s hs hshown => h.mp ⟨s, hs, hshown⟩⟩, fun h => ⟨?_, ?_⟩⟩
    · rintro ⟨s, hs, hshown⟩
      exact h.2 s hs hshown
    · rintro ⟨s, hs, hmatches⟩
      exact ⟨s, hs, shown_of_matches hmatches⟩
  · rw [if_neg fun h => hbinds (all_eq_true.mp h)]
    exact ⟨nofun, fun h => absurd h.1 hbinds⟩

end

/-- **When a list shows exactly what the principal may see.**  The condition of a list of scopes
over the columns of the hosts is true of a row, with the arguments at any place of the query, exactly
where some scope matches the target of that row, if and only if it is told by the scopes.  Over another
table a scope admits what it matches where it narrows by no category without a column, and nothing
otherwise. -/
theorem lists_show_what_matches_iff {ι : Type} [DecidableEq ι] (db : Database ι) :
    (∀ (scopes : List Scope) (table : Str) (host : HostRow ι) (before after : List Arg),
      (scopeSQL scopes (hostColumns table) before.length).1.shows db (host.row table)
          (before ++ ((scopeSQL scopes (hostColumns table) before.length).2 ++ after)) =
        some (scopes.any fun s => s.matchesTarget (host.target db)) ↔
      Told db (hostColumns table) host scopes) ∧
    (∀ (scopes : List Scope) (columns : Columns) (host : HostRow ι) (row : Row ι)
      (before after : List Arg), Names columns host row →
      ((scopeSQL scopes columns before.length).1.shows db row
          (before ++ ((scopeSQL scopes columns before.length).2 ++ after)) =
        some (scopes.any fun s => s.expressible columns && s.matchesTarget (host.target db)) ↔
      Told db columns host scopes)) ∧
    ∀ (scopes : List Scope) (columns : Columns) (row : Row ι) (offset : Nat) (args : List Arg),
      (∀ s ∈ scopes, s.expressible columns = false) →
      (scopeSQL scopes columns offset).1.shows db row args ≠ some true := by
  refine ⟨fun scopes table host before after => ?_,
    fun scopes columns host row before after hnames => shows_scopeSQL_iff hnames before after,
    fun scopes columns row offset args hscopes => ?_⟩
  · rw [← shows_scopeSQL_iff (names_hostColumns table host) before after]
    simp [Scope.expressible, hostColumns, ascii]
  · unfold scopeSQL
    split
    · exact nofun
    · exact shows_scopeConditions_of_never hscopes (fun _ h => absurd h not_mem_nil) args

/-- A database that takes every text, with texts for identifiers. -/
def texts : Database Str := ⟨fun _ => true, some, id, fun _ => rfl⟩

def ofOwner (owner : Str) : Scope := ⟨wildcard, wildcard, [], true, [owner], [wildcard]⟩

def unowned : HostRow Str := ⟨ascii "a".toList, ascii "b".toList, none, none, none⟩

/-- An empty owner beside another one, and a row of that one. -/
theorem lists_show_what_matches_iff_owner :
    let host : HostRow Str := { unowned with owner := some (ascii "c".toList) }
    let scopes := [ofOwner (ascii "c".toList), ofOwner []]
    (scopeSQL scopes (hostColumns []) 0).1.shows texts (host.row [])
        ([] ++ ((scopeSQL scopes (hostColumns []) 0).2 ++ [])) =
      some (scopes.any fun s => s.matchesTarget (host.target texts)) := by
  intro host scopes
  refine ((lists_show_what_matches_iff texts).1 scopes [] host [] []).mpr (.inr ⟨by decide, ?_⟩)
  decide

/-- A scope with an empty owner is shown the hosts nobody owns, which it does not match. -/
theorem empty_owner_shows_unowned :
    (scopeSQL [ofOwner []] (hostColumns []) 0).1.shows texts (unowned.row [])
        (scopeSQL [ofOwner []] (hostColumns []) 0).2 = some true ∧
      (ofOwner []).matchesTarget (unowned.target texts) = false := by
  constructor <;> decide

end Flotestro.Authz
