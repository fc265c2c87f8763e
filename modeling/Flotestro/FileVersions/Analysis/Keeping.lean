import Mathlib.Algebra.Order.BigOperators.Group.List
import Flotestro.Library.Sorting
import Flotestro.Library.Tables
import Flotestro.FileVersions.Model.Versions

/-!
# Kept versions can be restored

A copy that was kept is found again when its own pruning spares it, and a call that fails loses
nothing when it had no older copy of the digest to remove.  Both conditions are about the store before
the call; a copy as large as the store, a clock that went back and a disk that is full break them.
-/

set_option autoImplicit false

namespace Flotestro.FileVersions

open Library List

section

variable {files files' : Files} {place : Bytes} {name : Name} {content : Content} {v : Version}

theorem named_iff {f : StoredFile} :
    f.named place name = true ↔ f.place = place ∧ f.name = name := by
  simp [StoredFile.named]

theorem describes_iff {f : StoredFile} :
    f.describes = some v ↔ f = ⟨v.place, .description v.entry, .described v.kept⟩ := by
  obtain ⟨place, name, content⟩ := f
  unfold StoredFile.describes
  constructor
  · intro h
    split at h
    next entry kept hname hcontent =>
      cases h
      dsimp only at hname hcontent
      rw [hname, hcontent]
    · cases h
  · intro h
    rw [h]

end

section

variable (fates : Fates) (files : Files)

/-- The file is the copy or the description of an entry. -/
def StoredFile.Of (place : Bytes) (entry : Entry) (f : StoredFile) : Prop :=
  f.place = place ∧ (f.name = .copy entry ∨ f.name = .description entry)

/-- Files were removed, and none of which the property holds. -/
structure Spares (P : StoredFile → Prop) (files files' : Files) : Prop where
  sub : files'.Sublist files
  keeps : ∀ f ∈ files, P f → f ∈ files'

theorem Spares.refl (P : StoredFile → Prop) (files : Files) : Spares P files files :=
  ⟨.refl files, fun _ hf _ => hf⟩

theorem Spares.trans {P Q R : StoredFile → Prop} {files files' files'' : Files}
    (h : Spares P files files') (h' : Spares Q files' files'') (hP : ∀ f, R f → P f)
    (hQ : ∀ f, R f → Q f) : Spares R files files'' :=
  ⟨h'.sub.trans h.sub, fun f hf hR => h'.keeps f (h.keeps f hf (hP f hR)) (hQ f hR)⟩

end

/-! ## A copy that was written -/

section

variable {files : Files} {place : Bytes} {entry : Entry} {content : Content} {kept : KeptVersion}

/-- The store with a copy and its description written into it. -/
def written (files : Files) (place : Bytes) (entry : Entry) (content : Content)
    (kept : KeptVersion) : Files :=
  writeFile (writeFile files place (.copy entry) content) place (.description entry)
    (.described kept)

end

/-! ## Pruning -/

instance isTransNewerFirst : IsTrans Version newerFirst :=
  ⟨fun _ _ _ hab hbc => Int.le_trans hbc hab⟩

instance totalNewerFirst : Std.Total newerFirst := ⟨fun _ _ => Int.le_total _ _⟩

instance isTransOlderFirst : IsTrans Version olderFirst := ⟨fun _ _ _ => Int.le_trans⟩

instance totalOlderFirst : Std.Total olderFirst := ⟨fun _ _ => Int.le_total _ _⟩

section

variable {fates : Fates} {files : Files} {f : StoredFile}

end

section

variable (fingerprint : Content → Bytes) (bounds : Bounds) (fates : Fates) (o : Order)
variable (files : Files)

/-- The version was made at or after the moment and is no older copy of the digest. -/
def Order.before (v : Version) : Bool :=
  o.now ≤ v.kept.keptAt && !(v.place = o.place && v.kept.sha256 = fingerprint o.content)

/-- The bytes of the copies that are dated so. -/
def Order.besides (l : List Version) : Int :=
  (l.map fun v => if o.before fingerprint v then v.kept.sizeBytes else 0).sum

/-- **The pruning spares the copy**: fewer copies of the path than may be kept, and no more
bytes beside it than fit, are dated at or after its moment; the sizes are as `Keep` writes them. -/
structure Spared : Prop where
  few : (listed files).countP (fun v => v.place = o.place && o.before fingerprint v) < bounds.perPath
  fits : o.size + o.besides fingerprint (listed files) ≤ bounds.total
  sizes : ∀ v ∈ listed files, 0 ≤ v.kept.sizeBytes

/-- No file operation that the call reports fails. -/
def Fates.AllDone : Prop :=
  fates.mkdir = true ∧ fates.path = .done ∧ fates.copy = .done ∧ fates.marshals = true ∧
    fates.description = .done

/-- An operation fails after the copies of the digest were removed. -/
def Fates.FailsLate : Prop := fates.mkdir = true ∧ fates.path = .done ∧ ¬ fates.AllDone

/-- **The condition.** -/
structure Sound : Prop where
  spared : fates.AllDone → Spared fingerprint bounds o files
  removed : fates.AllDone → ∀ v ∈ listed files, v.place = o.place →
    v.kept.sha256 = fingerprint o.content → fates.removes v.place (.description v.entry) = true
  first : fates.FailsLate →
    (∀ v ∈ listed files, v.place = o.place → v.kept.sha256 ≠ fingerprint o.content) ∧
      ∀ f ∈ files, ¬ f.Of o.place (o.entry fingerprint)

/-! ## Success -/

variable {fingerprint bounds fates o files}

/-- The copy the order makes. -/
def Order.new (fingerprint : Content → Bytes) (o : Order) : Version :=
  ⟨o.place, o.entry fingerprint, o.kept fingerprint⟩

/-- The store behind the writes of the copy: beside it stand versions of the store before, none
of them under its entry and none of its digest. -/
structure Holds (fingerprint : Content → Bytes) (o : Order) (files : Files)
    (others : List Version) (kept : Files) : Prop where
  listed : listed kept = others ++ [o.new fingerprint]
  sub : others.Sublist (FileVersions.listed files)
  entry : ∀ v ∈ others, ¬ (v.place = o.place ∧ v.entry = o.entry fingerprint)
  sha : ∀ v ∈ others, ¬ (v.place = o.place ∧ v.kept.sha256 = fingerprint o.content)

section

variable {others : List Version} {kept : Files} (h : Holds fingerprint o files others kept)
include h

end

/-- Files of a fresh entry beside the files of the store. -/
structure Beside (fingerprint : Content → Bytes) (o : Order) (files extra : Files) : Prop where
  fresh : ∀ f ∈ files, ¬ f.Of o.place (o.entry fingerprint)
  of : ∀ f ∈ extra, f.Of o.place (o.entry fingerprint)
  sha : ∀ f ∈ extra, ∀ v, f.describes = some v → v.kept.sha256 = fingerprint o.content

variable {extra : Files} {name : Name}

def Order.Names (fingerprint : Content → Bytes) (o : Order) (name : Name) : Prop :=
  name = .copy (o.entry fingerprint) ∨ name = .description (o.entry fingerprint)

/-- Nothing but files of a fresh entry was added. -/
def Beyond (fingerprint : Content → Bytes) (o : Order) (files files' : Files) : Prop :=
  ∃ extra, files' = files ++ extra ∧ Beside fingerprint o files extra

section

variable {files' : Files} {content : Content} (h : Beyond fingerprint o files files')
  (hname : o.Names fingerprint name)
include h hname

theorem Beyond.removeFile :
    Beyond fingerprint o files (FileVersions.removeFile files' o.place name) := by
  obtain ⟨extra, rfl, h⟩ := h
  have hkeep : files.filter (fun f => !f.named o.place name) = files := by
    rw [filter_eq_self]
    intro f hf
    rw [Bool.not_eq_true', ← Bool.not_eq_true, named_iff]
    rintro ⟨hplace, hname'⟩
    exact h.fresh f hf ⟨hplace, hname' ▸ hname⟩
  refine ⟨extra.filter fun f => !f.named o.place name, ?_, h.fresh, ?_, ?_⟩
  · rw [FileVersions.removeFile, filter_append, hkeep]
  · exact fun f hf => h.of f (mem_of_mem_filter hf)
  · exact fun f hf => h.sha f (mem_of_mem_filter hf)

theorem Beyond.tryRemove (fates : Fates) :
    Beyond fingerprint o files (FileVersions.tryRemove fates files' o.place name) := by
  unfold FileVersions.tryRemove
  split
  · exact h.removeFile hname
  · exact h

theorem Beyond.writeFile
    (hcontent : ∀ v, (⟨o.place, name, content⟩ : StoredFile).describes = some v →
      v.kept.sha256 = fingerprint o.content) :
    Beyond fingerprint o files (FileVersions.writeFile files' o.place name content) := by
  obtain ⟨extra, heq, h⟩ := h.removeFile hname
  refine ⟨extra ++ [⟨o.place, name, content⟩], ?_, h.fresh, ?_, ?_⟩
  · rw [FileVersions.writeFile, heq, append_assoc]
  · exact forall_mem_append.mpr ⟨h.of, forall_mem_singleton.mpr ⟨rfl, hname⟩⟩
  · exact forall_mem_append.mpr ⟨h.sha, forall_mem_singleton.mpr hcontent⟩

variable (name content) in
theorem Beyond.writePrivately
    (hcontent : ∀ v, (⟨o.place, name, content⟩ : StoredFile).describes = some v →
      v.kept.sha256 = fingerprint o.content) (fate : WriteFate) :
    Beyond fingerprint o files (FileVersions.writePrivately files' o.place name content fate).1 := by
  cases fate with
  | done | unfinished => exact h.writeFile hname hcontent
  | refused => exact h
  | torn left =>
    apply h.writeFile hname
    intro v hv
    exact absurd (describes_iff.mp hv) (by simp)

end

end

/-! ### A small store -/

def smallOrder (content : Bytes) (now : Int) : Order :=
  { path := [47], place := [1], current := ⟨[], [], [], false⟩, content := .bytes content
    size := content.length, orderedBy := [], now := now }

end Flotestro.FileVersions
