import Flotestro.Library.Runs
import Flotestro.Plans.Model.Envelope
import Flotestro.Jcs.Analysis.Canonical

/-!
# The lists and the JSON of a plan

The comparisons order the lists of a plan by all fields of their elements, so only equal elements are
tied.  The JSON of an envelope, with the members of its objects in order, tells every field of it, and the
numbers in it as far as they can be told from each other.
-/

set_option autoImplicit false

namespace Flotestro.Plans

open Library Flotestro.Jcs List

theorem utf8_injective : Function.Injective utf8 := by
  intro s t h
  apply bytes_injective
  exact ByteArray.ext (Array.ext' h)

theorem map_toNat_injective : Function.Injective (List.map UInt8.toNat) :=
  map_injective_iff.mpr fun _ _ => UInt8.toNat_inj.mp

section

variable {α : Type} (keys : List (α → Chars))

/-- The keys of an element, as they are compared. -/
def ranks (a : α) : List (List Nat) := keys.map fun key => (utf8 (key a)).map UInt8.toNat

theorem lessBy_iff (a b : α) : lessBy keys a b = true ↔ ranks keys a < ranks keys b := by
  induction keys with
  | nil => simp [lessBy, ranks]
  | cons key keys ih =>
    rw [lessBy, ranks, ranks, map_cons, map_cons, cons_lt_cons_iff]
    by_cases hkey : key a = key b
    · rw [if_neg (not_not.mpr hkey), ih, hkey]
      simp [ranks]
    · have hne : (utf8 (key a)).map UInt8.toNat ≠ (utf8 (key b)).map UInt8.toNat := fun h =>
        hkey (utf8_injective (map_toNat_injective h))
      rw [if_pos hkey, lessText]
      simp [hne]

/-- The keys tell elements apart. -/
def Separates : Prop := ∀ a b : α, (∀ key ∈ keys, key a = key b) → a = b

variable {keys}

theorem Separates.ranks_injective (h : Separates keys) : Function.Injective (ranks keys) := by
  intro a b hab
  apply h
  intro key hkey
  exact utf8_injective (map_toNat_injective (map_inj_left.mp hab key hkey))

/-- **A sorted list tells its elements and how often each stands in it, and nothing else.** -/
theorem sortBy_eq_iff (h : Separates keys) {l l' : List α} :
    sortBy (lessBy keys) l = sortBy (lessBy keys) l' ↔ l.Perm l' := by
  have hle : ∀ a b : α, lessBy keys b a = false ↔ ranks keys a ≤ ranks keys b := by
    intro a b
    rw [← Bool.not_eq_true, lessBy_iff, not_lt]
  have htrans : IsTrans α fun a b => lessBy keys b a = false := by
    constructor
    intro a b c hab hbc
    rw [hle] at *
    exact le_trans hab hbc
  have htotal : Std.Total (α := α) fun a b => lessBy keys b a = false := by
    constructor
    intro a b
    rw [hle, hle]
    exact le_total _ _
  apply insertionSort_eq_iff
  intro a b hab hba
  rw [hle] at *
  exact h.ranks_injective (le_antisymm hab hba)

end

theorem separates_precondition :
    Separates [Precondition.kind, Precondition.subject, Precondition.expected] := by
  rintro ⟨⟩ ⟨⟩ h
  simp_all

theorem separates_step : Separates [Step.subject, Step.kind, Step.spec] := by
  rintro ⟨⟩ ⟨⟩ h
  simp_all

theorem separates_artifact : Separates [Artifact.kind, Artifact.name, Artifact.architecture,
    Artifact.version, Artifact.origin, Artifact.digest] := by
  rintro ⟨⟩ ⟨⟩ h
  simp_all

theorem separates_effect : Separates [Effect.kind, Effect.subject, Effect.value] := by
  rintro ⟨⟩ ⟨⟩ h
  simp_all

theorem separates_text : Separates [(id : Chars → Chars)] := by
  intro a b h
  exact h id mem_cons_self

theorem lessText_eq_lessBy : lessText = lessBy [id] := by
  funext a b
  rw [lessBy]
  split
  · rfl
  next h =>
    have hab : a = b := not_not.mp h
    rw [lessBy, hab, lessText]
    simp

/-! ## Normalized lists -/

theorem normalized_list {α : Type} (less : α → α → Bool) (l : Option (List α)) :
    orEmpty ((copied l).map (sortBy less)) = some (sortBy less (l.getD [])) := by
  unfold orEmpty copied
  split
  next h =>
    rw [h]
    rfl
  next h =>
    cases l with
    | none => exact absurd rfl h
    | some l => rfl

/-! ## The names of the fields -/

theorem nodup_names (names : List String) (h : names.Nodup) : (names.map String.toList).Nodup :=
  h.map fun _ _ => String.toList_injective

theorem nodup_effect : (["kind", "subject", "value"].map String.toList).Nodup :=
  nodup_names _ (by decide)

theorem nodup_envelope : (["schema_version", "planner_version", "action_type", "host_id",
    "inventory_revision", "resource_revision", "preconditions", "steps", "effects", "artifacts",
    "rollback", "expires_at", "description"].map String.toList).Nodup :=
  nodup_names _ (by decide)

section

variable {ν μ : Type} {num : Int → ν} {stamp : Time → Chars}

theorem distinct_listTree {α : Type} (tree : α → Json ν) (h : ∀ a, (tree a).Distinct)
    (l : Option (List α)) : (listTree tree l).Distinct := by
  cases l with
  | none => trivial
  | some l =>
    rw [listTree, Json.Distinct, Json.distinctItems_iff]
    intro v hv
    obtain ⟨a, -, rfl⟩ := mem_map.mp hv
    exact h a

theorem Precondition.distinct_tree (p : Precondition) : (p.tree : Json ν).Distinct :=
  ⟨nodup_names ["kind", "subject", "expected"] (by decide), trivial, trivial, trivial, trivial⟩

theorem Step.distinct_tree (s : Step) : (s.tree : Json ν).Distinct :=
  ⟨nodup_names ["kind", "subject", "spec"] (by decide), trivial, trivial, trivial, trivial⟩

theorem Artifact.distinct_tree (a : Artifact) : (a.tree : Json ν).Distinct :=
  ⟨nodup_names ["kind", "name", "version", "architecture", "origin", "digest"] (by decide), trivial,
    trivial, trivial, trivial, trivial, trivial, trivial⟩

theorem distinct_omitEmpty (fields : List (Chars × Json ν)) {name : String} {s : Chars}
    (hnodup : (fields.map Prod.fst ++ [name.toList]).Nodup) (h : Json.DistinctMembers fields) :
    (Json.obj (fields ++ omitEmpty name s)).Distinct := by
  unfold omitEmpty
  split
  · rw [append_nil]
    exact ⟨hnodup.sublist (sublist_append_left _ _), h⟩
  · refine ⟨by rw [map_append]; exact hnodup, ?_⟩
    rw [Json.distinctMembers_iff] at *
    exact forall_mem_concat h trivial

theorem Effect.distinct_tree (e : Effect) : (e.tree : Json ν).Distinct :=
  distinct_omitEmpty [_, _] nodup_effect ⟨trivial, trivial, trivial⟩

theorem Effects.distinct_tree (e : Effects) : (e.tree num).Distinct :=
  ⟨nodup_names ["expected", "reboot_required", "services_restart", "services_restart_known",
    "download_bytes", "download_known", "install_delta_bytes", "install_delta_known"] (by decide),
    distinct_listTree _ Effect.distinct_tree _, trivial,
    distinct_listTree Json.str (fun _ => trivial) _, trivial, trivial, trivial, trivial, trivial,
    trivial⟩

theorem RollbackPlan.distinct_tree (r : RollbackPlan) : (r.tree : Json ν).Distinct :=
  ⟨nodup_names ["mechanism", "id", "available", "reason"] (by decide), trivial, trivial, trivial,
    trivial, trivial⟩

theorem Envelope.distinct_tree (e : Envelope) : (e.tree num stamp).Distinct :=
  distinct_omitEmpty _ nodup_envelope
    ⟨trivial, trivial, trivial, trivial, trivial, trivial,
      distinct_listTree _ Precondition.distinct_tree _, distinct_listTree _ Step.distinct_tree _,
      e.effects.distinct_tree, distinct_listTree _ Artifact.distinct_tree _,
      e.rollback.distinct_tree, trivial, trivial⟩

theorem mapNum_listTree {α : Type} (f : ν → μ) (tree : α → Json ν) (tree' : α → Json μ)
    (h : ∀ a, (tree a).mapNum f = tree' a) (l : Option (List α)) :
    (listTree tree l).mapNum f = listTree tree' l := by
  cases l with
  | none => rfl
  | some l =>
    rw [listTree, Json.mapNum, Json.mapNumItems_eq, map_map]
    congr 1
    exact map_congr_left fun a _ => h a

theorem Effect.mapNum_tree (f : ν → μ) (e : Effect) : (e.tree : Json ν).mapNum f = e.tree := by
  unfold Effect.tree omitEmpty
  split
  · rfl
  · rfl

theorem Effects.mapNum_tree (f : ν → μ) (e : Effects) :
    (e.tree num).mapNum f = e.tree fun n => f (num n) := by
  have hexpected := mapNum_listTree f _ _ (Effect.mapNum_tree f) e.expected
  have hservices := mapNum_listTree f Json.str Json.str (fun s => rfl) e.servicesRestart
  simp [Effects.tree, Json.mapNum, Json.mapNumMembers_eq, hexpected, hservices, boolField, numField]

theorem Envelope.mapNum_tree (f : ν → μ) (e : Envelope) :
    (e.tree num stamp).mapNum f = e.tree (fun n => f (num n)) stamp := by
  have hpreconditions := mapNum_listTree f Precondition.tree Precondition.tree (fun p => rfl)
    e.preconditions
  have hsteps := mapNum_listTree f Step.tree Step.tree (fun p => rfl) e.steps
  have hartifacts := mapNum_listTree f Artifact.tree Artifact.tree (fun p => rfl) e.artifacts
  have hrollback : (e.rollback.tree : Json ν).mapNum f = e.rollback.tree := rfl
  have hdescription : ((omitEmpty "description" e.description : List (Chars × Json ν)).map
      fun m => (m.1, m.2.mapNum f)) = omitEmpty "description" e.description := by
    unfold omitEmpty
    split
    · rfl
    · rfl
  simp [Envelope.tree, Envelope.fields, Json.mapNum, Json.mapNumMembers_eq, hdescription,
    hpreconditions, hsteps, hartifacts, hrollback, Effects.mapNum_tree, textField, numField]

/-! ## What the JSON tells -/

theorem listTree_inj {α : Type} {tree : α → Json ν}
    (htree : ∀ a b, arrange (tree a) = arrange (tree b) → a = b) {l l' : Option (List α)}
    (h : arrange (listTree tree l) = arrange (listTree tree l')) : l = l' := by
  cases l with
  | none =>
    cases l' with
    | none => rfl
    | some l' => simp [listTree, arrange] at h
  | some l =>
    cases l' with
    | none => simp [listTree, arrange] at h
    | some l' =>
      rw [listTree, listTree, arrange_arr, arrange_arr, map_map, map_map] at h
      injection h with h
      rw [Json.eq_of_map_eq (fun a _ b => htree a b) h]

theorem str_inj {s t : Chars} (h : arrange (.str s : Json ν) = arrange (.str t)) : s = t := by
  simpa [arrange] using h

theorem Precondition.tree_inj (p q : Precondition)
    (h : arrange (p.tree : Json ν) = arrange q.tree) : p = q := by
  have hvalues := values_of_arrange_eq h rfl p.distinct_tree.1
  cases p
  cases q
  simpa [textField, arrange] using hvalues

theorem Step.tree_inj (s t : Step) (h : arrange (s.tree : Json ν) = arrange t.tree) : s = t := by
  have hvalues := values_of_arrange_eq h rfl s.distinct_tree.1
  cases s
  cases t
  simpa [textField, arrange] using hvalues

theorem Artifact.tree_inj (a b : Artifact) (h : arrange (a.tree : Json ν) = arrange b.tree) :
    a = b := by
  have hvalues := values_of_arrange_eq h rfl a.distinct_tree.1
  cases a
  cases b
  simpa [textField, arrange] using hvalues

theorem RollbackPlan.tree_inj (r s : RollbackPlan)
    (h : arrange (r.tree : Json ν) = arrange s.tree) : r = s := by
  have hvalues := values_of_arrange_eq h rfl r.distinct_tree.1
  cases r
  cases s
  simpa [textField, boolField, arrange] using hvalues

theorem omitEmpty_inj (fields fields' : List (Chars × Json ν)) {name : String} {s t : Chars}
    (hnames : fields.map Prod.fst = fields'.map Prod.fst)
    (hnodup : (fields.map Prod.fst ++ [name.toList]).Nodup)
    (h : arrange (.obj (fields ++ omitEmpty name s)) = arrange (.obj (fields' ++ omitEmpty name t))) :
    (fields.map fun m => (m.1, arrange m.2)) = (fields'.map fun m => (m.1, arrange m.2)) ∧
      s = t := by
  have hlength := (members_of_arrange_eq h).length_eq
  have hsame := congrArg List.length hnames
  simp only [length_map, length_append] at hlength hsame
  unfold omitEmpty at h hlength
  split at h
  next hs =>
    split at h
    next ht =>
      rw [append_nil, append_nil] at h
      refine ⟨values_of_arrange_eq h hnames ?_, by rw [hs, ht]⟩
      exact hnodup.sublist (sublist_append_left _ _)
    next ht =>
      rw [if_pos hs, if_neg ht] at hlength
      simp only [length_nil, length_singleton] at hlength
      omega
  next hs =>
    split at h
    next ht =>
      rw [if_neg hs, if_pos ht] at hlength
      simp only [length_nil, length_singleton] at hlength
      omega
    next ht =>
      have hvalues := values_of_arrange_eq h (by rw [map_append, map_append, hnames]; rfl)
        (by rw [map_append]; exact hnodup)
      rw [map_append, map_append] at hvalues
      obtain ⟨hfields, hlast⟩ := append_inj hvalues
        (by rw [length_map, length_map, hsame])
      refine ⟨hfields, ?_⟩
      simpa [textField, arrange] using hlast

theorem Effect.tree_inj (e f : Effect) (h : arrange (e.tree : Json ν) = arrange f.tree) : e = f := by
  obtain ⟨hvalues, hvalue⟩ := omitEmpty_inj
    [textField "kind" e.kind, textField "subject" e.subject]
    [textField "kind" f.kind, textField "subject" f.subject] rfl nodup_effect h
  cases e
  cases f
  simpa [textField, arrange, and_assoc] using And.intro hvalues hvalue

theorem natAbs_toNat_lt (u : UInt32) : (u.toNat : Int).natAbs < 2 ^ 53 := by
  have := u.toNat_lt
  omega

def Effects.Counted (e : Effects) : Prop :=
  e.downloadBytes.toNat < 2 ^ 53 ∧ e.installDeltaBytes.toInt.natAbs < 2 ^ 53

theorem Effects.tree_inj {e f : Effects} (he : e.Counted) (hf : f.Counted)
    (hnum : ∀ n m : Int, n.natAbs < 2 ^ 53 → m.natAbs < 2 ^ 53 → num n = num m → n = m)
    (h : arrange (e.tree num) = arrange (f.tree num)) : e = f := by
  -- the names of the fields are compared without a look at the numbers
  unfold Effects.tree numField at h
  generalize hdelta : num e.installDeltaBytes.toInt = delta at h
  generalize hdelta' : num f.installDeltaBytes.toInt = delta' at h
  have hvalues := values_of_arrange_eq h rfl (@Effects.distinct_tree _ num e).1
  simp only [boolField, map_cons, List.cons.injEq, Prod.mk.injEq,
    true_and, and_true] at hvalues
  obtain ⟨hexpected, hreboot, hservices, hknown, hdownload, hdownloadKnown, hsame, hdeltaKnown⟩ :=
    hvalues
  simp only [arrange, Json.bool.injEq] at hreboot hknown hdownloadKnown hdeltaKnown
  simp only [arrange, Json.num.injEq] at hdownload hsame
  have hbytes := hnum _ _ (by rw [Int.natAbs_natCast]; exact he.1)
    (by rw [Int.natAbs_natCast]; exact hf.1) hdownload
  have hdeltaBytes := Int64.toInt_inj.mp
    (hnum _ _ he.2 hf.2 (hdelta.trans (hsame.trans hdelta'.symm)))
  have hdownloadBytes := UInt64.toNat_inj.mp (Int.ofNat_inj.mp hbytes)
  have hexpected' := listTree_inj Effect.tree_inj hexpected
  have hservices' := listTree_inj (fun s t => str_inj) hservices
  cases e
  cases f
  simp only [Effects.mk.injEq]
  exact ⟨hexpected', hreboot, hservices', hknown, hdownloadBytes, hdownloadKnown, hdeltaBytes,
    hdeltaKnown⟩

/-- **The JSON of an envelope tells all of it** but how its expiry is written. -/
theorem Envelope.tree_inj {a b : Envelope} (ha : a.effects.Counted) (hb : b.effects.Counted)
    (hexpiry : a.expiresAt = b.expiresAt)
    (hnum : ∀ n m : Int, n.natAbs < 2 ^ 53 → m.natAbs < 2 ^ 53 → num n = num m → n = m)
    (h : arrange (a.tree num stamp) = arrange (b.tree num stamp)) : a = b := by
  obtain ⟨hvalues, hdescription⟩ := omitEmpty_inj (a.fields num stamp) (b.fields num stamp) rfl
    nodup_envelope h
  simp only [Envelope.fields, textField, numField, map_cons, List.cons.injEq,
    Prod.mk.injEq, true_and] at hvalues
  obtain ⟨hschema, hplanner, haction, hhost, hinventory, hresource, hpreconditions, hsteps, heffects,
    hartifacts, hrollback, -⟩ := hvalues
  simp only [arrange, Json.num.injEq] at hschema
  simp only [arrange, Json.str.injEq] at hplanner haction hhost hinventory hresource
  have hschema' := UInt32.toNat_inj.mp (Int.ofNat_inj.mp
    (hnum _ _ (natAbs_toNat_lt _) (natAbs_toNat_lt _) hschema))
  have hpreconditions' := listTree_inj Precondition.tree_inj hpreconditions
  have hsteps' := listTree_inj Step.tree_inj hsteps
  have hartifacts' := listTree_inj Artifact.tree_inj hartifacts
  have heffects' := Effects.tree_inj ha hb hnum heffects
  have hrollback' := RollbackPlan.tree_inj _ _ hrollback
  cases a
  cases b
  simp only [Envelope.mk.injEq]
  exact ⟨hschema', hplanner, haction, hhost, hinventory, hresource, hpreconditions', hsteps',
    heffects', hartifacts', hrollback', hexpiry, hdescription⟩

/-- The JSON of an envelope depends on the text of three numbers. -/
theorem Envelope.tree_congr {num' : Int → ν} (e : Envelope)
    (hschema : num e.schemaVersion.toNat = num' e.schemaVersion.toNat)
    (hdownload : num e.effects.downloadBytes.toNat = num' e.effects.downloadBytes.toNat)
    (hdelta : num e.effects.installDeltaBytes.toInt = num' e.effects.installDeltaBytes.toInt) :
    e.tree num stamp = e.tree num' stamp := by
  simp [Envelope.tree, Envelope.fields, Effects.tree, numField, hschema, hdownload, hdelta]

end

end Flotestro.Plans
