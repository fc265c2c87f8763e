import Mathlib.Data.List.Sort
import Flotestro.Library.Bytes

/-!
# Kept file versions

The files of the version store, the copies in it and the operations over them.  A copy and its
description are two files; the description is kept as what its text reads as.  Every file operation
of `Keep` may fail: a write before the file is opened, part-way, or when the mode is set behind it.
-/

set_option autoImplicit false

namespace Flotestro.FileVersions

open Library

/-- A copy is filed under the moment it was made and the digest of its content. -/
structure Entry where
  stamp : Int
  digest : Bytes
  deriving DecidableEq

/-- SOURCE: versions.go:32-51 -/
structure KeptVersion where
  sha256 : Bytes
  sizeBytes : Int
  mode : Bytes
  owner : Bytes
  group : Bytes
  keptAt : Int
  orderedBy : Bytes
  fromSecret : Bool
  deriving DecidableEq

/-- What `Keep` reads of the file that is replaced. -/
structure File where
  mode : Bytes
  owner : Bytes
  group : Bytes
  fromSecret : Bool

/-- The files of a directory of the store. -/
inductive Name where
  | path
  | copy (entry : Entry)
  | description (entry : Entry)
  deriving DecidableEq

/-- A text that reads as a description, or any other. -/
inductive Content where
  | bytes (b : Bytes)
  | described (v : KeptVersion)

structure StoredFile where
  place : Bytes
  name : Name
  content : Content

/-- The files of the store; a place is the directory of one path. -/
abbrev Files := List StoredFile

/-- A copy with its description. -/
structure Version where
  place : Bytes
  entry : Entry
  kept : KeptVersion
  deriving DecidableEq

def StoredFile.named (place : Bytes) (name : Name) (f : StoredFile) : Bool :=
  f.place = place && f.name = name

def removeFile (files : Files) (place : Bytes) (name : Name) : Files :=
  files.filter fun f => !f.named place name

def writeFile (files : Files) (place : Bytes) (name : Name) (content : Content) : Files :=
  removeFile files place name ++ [⟨place, name, content⟩]

def readFile (files : Files) (place : Bytes) (name : Name) : Option Content :=
  (files.find? (StoredFile.named place name)).map StoredFile.content

inductive WriteFate where
  | done
  /-- The file was not opened. -/
  | refused
  /-- A part of the content was written. -/
  | torn (left : Bytes)
  /-- The content was written and the mode not set. -/
  | unfinished
  deriving DecidableEq

/-- SOURCE: versions.go:251-257 -/
def writePrivately (files : Files) (place : Bytes) (name : Name) (content : Content) :
    WriteFate → Files × Bool
  | .done => (writeFile files place name content, true)
  | .refused => (files, false)
  | .torn left => (writeFile files place name (.bytes left), false)
  | .unfinished => (writeFile files place name content, false)

def StoredFile.describes (f : StoredFile) : Option Version :=
  match f.name, f.content with
  | .description entry, .described v => some ⟨f.place, entry, v⟩
  | _, _ => none

/-- A description without its content is not a version. -/
def hasCopy (files : Files) (v : Version) : Bool :=
  files.any (StoredFile.named v.place (.copy v.entry))

def listed (files : Files) : List Version :=
  (files.filterMap StoredFile.describes).filter (hasCopy files)

/-- The first was kept at least as late. -/
def newerFirst (a b : Version) : Prop := b.kept.keptAt ≤ a.kept.keptAt

instance decidableNewerFirst : DecidableRel newerFirst :=
  fun a b => inferInstanceAs (Decidable (b.kept.keptAt ≤ a.kept.keptAt))

/-- SOURCE: versions.go:157-189 -/
def list (files : Files) (place : Bytes) : List Version :=
  ((listed files).filter fun v => v.place = place).insertionSort newerFirst

inductive LookupError where
  | noSuchVersion | unreadable | corrupted

variable (fingerprint : Content → Bytes)

/-- SOURCE: versions.go:132-155 -/
def lookup (files : Files) (place digest : Bytes) : Except LookupError (Version × Content) :=
  match (list files place).find? fun v => v.kept.sha256 = digest with
  | none => .error .noSuchVersion
  | some v =>
    match readFile files place (.copy v.entry) with
    | none => .error .unreadable
    | some content => if fingerprint content = digest then .ok (v, content) else .error .corrupted

/-- The fates of the file operations of one call. -/
structure Fates where
  mkdir : Bool
  path : WriteFate
  copy : WriteFate
  /-- The description can be written down. -/
  marshals : Bool
  description : WriteFate
  /-- The file can be removed. -/
  removes : Bytes → Name → Bool

def tryRemove (fates : Fates) (files : Files) (place : Bytes) (name : Name) : Files :=
  if fates.removes place name then removeFile files place name else files

/-- SOURCE: versions.go:242-249 -/
def remove (fates : Fates) (files : Files) (v : Version) : Files :=
  tryRemove fates (tryRemove fates files v.place (.description v.entry)) v.place (.copy v.entry)

/-- The bounds of the store.  SOURCE: versions.go:17-21, versions.go:53-62 -/
structure Bounds where
  keepPerPath : Int
  maxBytes : Int

def Bounds.perPath (b : Bounds) : Nat := if b.keepPerPath ≤ 0 then 10 else b.keepPerPath.toNat

def Bounds.total (b : Bounds) : Int := if b.maxBytes ≤ 0 then 33554432 else b.maxBytes

/-- SOURCE: versions.go:191-203 -/
def pruneDirectory (bounds : Bounds) (fates : Fates) (files : Files) (place : Bytes) : Files :=
  ((list files place).drop bounds.perPath).foldl (remove fates) files

/-- A sum in sixty-four signed bits. -/
def int64 (n : Int) : Int := n.bmod 18446744073709551616

/-- The oldest copies go until the rest fits.  SOURCE: versions.go:232-239 -/
def pruneFrom (limit : Int) (fates : Fates) : List Version → Int → Files → Files
  | [], _, files => files
  | v :: rest, total, files =>
    if total ≤ limit then files
    else pruneFrom limit fates rest (int64 (total - v.kept.sizeBytes)) (remove fates files v)

def sizes (l : List Version) : Int := (l.map fun v => v.kept.sizeBytes).sum

def olderFirst (a b : Version) : Prop := a.kept.keptAt ≤ b.kept.keptAt

instance decidableOlderFirst : DecidableRel olderFirst :=
  fun a b => inferInstanceAs (Decidable (a.kept.keptAt ≤ b.kept.keptAt))

/-- SOURCE: versions.go:205-240 -/
def pruneTotal (bounds : Bounds) (fates : Fates) (files : Files) : Files :=
  pruneFrom bounds.total fates ((listed files).insertionSort olderFirst) (int64 (sizes (listed files)))
    files

/-- The copies of the digest go.  SOURCE: versions.go:99-103 -/
def removeSame (fates : Fates) (files : Files) (place digest : Bytes) : Files :=
  ((list files place).filter fun v => v.kept.sha256 = digest).foldl (remove fates) files

/-- The order of a call of `Keep`: the path, with the place the digest of the path gives
it. -/
structure Order where
  path : Bytes
  place : Bytes
  current : File
  content : Content
  /-- The length of the content. -/
  size : Nat
  orderedBy : Bytes
  now : Int

def Order.entry (o : Order) : Entry := ⟨o.now, fingerprint o.content⟩

def Order.kept (o : Order) : KeptVersion :=
  { sha256 := fingerprint o.content
    sizeBytes := o.size
    mode := o.current.mode
    owner := o.current.owner
    group := o.current.group
    keptAt := o.now
    orderedBy := o.orderedBy
    fromSecret := o.current.fromSecret }

/-- The step of `Keep` that failed. -/
inductive KeepError where
  | mkdir | path | copy | marshal | description

/-- SOURCE: versions.go:75-119 -/
def keep (bounds : Bounds) (fates : Fates) (o : Order) (files : Files) :
    Files × Except KeepError KeptVersion :=
  if !fates.mkdir then (files, .error .mkdir)
  else
    match writePrivately files o.place .path (.bytes (o.path ++ [10])) fates.path with
    | (files, false) => (files, .error .path)
    | (files, true) =>
      let files := removeSame fates files o.place (fingerprint o.content)
      match writePrivately files o.place (.copy (o.entry fingerprint)) o.content fates.copy with
      | (files, false) => (files, .error .copy)
      | (files, true) =>
        if !fates.marshals then (files, .error .marshal)
        else
          match writePrivately files o.place (.description (o.entry fingerprint))
              (.described (o.kept fingerprint)) fates.description with
          | (files, false) =>
            (tryRemove fates files o.place (.copy (o.entry fingerprint)), .error .description)
          | (files, true) =>
            (pruneTotal bounds fates (pruneDirectory bounds fates files o.place),
              .ok (o.kept fingerprint))

end Flotestro.FileVersions
