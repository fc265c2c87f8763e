import Flotestro.RelaySpool.Model.Segment

/-!
# The primitive operations of the spool

Each operation takes the spool and gives back its error or its answer together with the
spool it leaves; a failure leaves what was changed before it, as the source does.  An
operation here is a stretch of a locked function of the source in which at most one point
can fail before memory changes, so that between two operations memory and disk agree:
`rollLocked`, the write of `writeLocked` (`writeRecord`), the tombstone of `deleteLocked`
(`entomb`) and its removal of a dead segment (`settle`), the rounds of `compactLocked`
(`compactRounds`), `readLocked`, and `rebuild`.
-/

set_option autoImplicit false

namespace Flotestro.RelaySpool

open Library

/-- The bytes of a segment, none when the file is not there. -/
def Spool.content (s : Spool) (id : Nat) : Bytes := (s.files.lookup id).getD []

/-- The spool after one more question to the environment. -/
def Spool.next (s : Spool) : Spool := { s with tick := s.tick + 1 }

def Spool.removeSegment (s : Spool) (id : Nat) : Spool :=
  { s with files := s.files.erase id, segments := s.segments.erase id }

/-! ## The active segment -/

def Spool.extendActive (s : Spool) (a : Segment) (framed : Bytes) : Spool :=
  { s with
    files := s.files.insert a.id (s.content a.id ++ framed)
    active := some { a with size := a.size + framed.length } }

variable (env : Env)

/-- Append a frame to the active segment.  The file was opened for appending or
is written from its start by one handle, so the bytes land at its end.  A failed write
leaves a strict part of the frame behind and the size where it was.
SOURCE: segment.go:56-71 -/
def appendActive (framed : Bytes) (s : Spool) : Except Err Nat × Spool :=
  match s.active with
  | none => (.error .io, s)
  | some a =>
    if a.opened then
      match env.fault s.tick with
      | some n =>
        (.error .io,
          { s.next with
            files := s.files.insert a.id
              (s.content a.id ++ framed.take (min n (framed.length - 1))) })
      | none => (.ok a.size, s.next.extendActive a framed)
    else (.error .io, s)

variable (s : Spool)

/-- Flush the active segment.
SOURCE: segment.go:74-76 -/
def syncActive : Except Err Unit × Spool :=
  match s.active with
  | none => (.error .io, s)
  | some a =>
    if a.opened ∧ env.fault s.tick = none then (.ok (), s.next) else (.error .io, s.next)

/-- Flush and close the active segment; a file closed before is refused, and a
file is closed whether or not the flush went through.
SOURCE: segment.go:79-86 -/
def closeActive : Except Err Unit × Spool :=
  match s.active with
  | none => (.ok (), s)
  | some a =>
    if a.opened then
      (if env.fault s.tick = none ∧ env.fault (s.tick + 1) = none then .ok () else .error .io,
        { s with tick := s.tick + 2, active := some { a with opened := false } })
    else (.error .io, s)

/-- Create the segment `nextID` and make it the active one.  The name must be
new; a failed flush of the directory leaves the empty file behind.
SOURCE: segment.go:24-34 and spool.go:402-408 -/
def createSegment : Except Err Unit × Spool :=
  if s.nextID ∈ s.files ∨ (env.fault s.tick).isSome then (.error .io, s.next)
  else if (env.fault (s.tick + 1)).isSome then
    (.error .io, { s with tick := s.tick + 2, files := s.files.insert s.nextID [] })
  else
    (.ok (),
      { s with
        tick := s.tick + 2
        files := s.files.insert s.nextID []
        active := some ⟨s.nextID, 0, true⟩
        segments := s.segments.insert s.nextID ⟨s.nextID, 0, 0⟩ })

/-- Close the active segment and open the next one.
SOURCE: spool.go:395-409 -/
def rollLocked : Except Err Unit × Spool :=
  match closeActive env s with
  | (.error e, s) => (.error e, s)
  | (.ok _, s) => createSegment env { s with nextID := s.nextID + 1 }

/-- The account of the active segment brought up to its size. -/
def Spool.accountActive (live : Int) : Spool :=
  match s.active with
  | none => s
  | some a =>
    { s with segments := modify s.segments a.id fun st =>
        { st with size := a.size, live := st.live + live } }

/-- Put a new entry into the index and the list of its host. -/
def Spool.addEntry (item : Entry) : Spool :=
  { s with
    heap := Function.update s.heap s.nextPtr item
    nextPtr := s.nextPtr + 1
    index := s.index.insert item.id s.nextPtr
    byHost := s.byHost.insert item.hostID (s.hostList item.hostID ++ [s.nextPtr])
    live := s.live + item.size }

/-- Write a record to the active segment and index it.
SOURCE: spool.go:374-391 -/
def writeRecord (r : Record) (s : Spool) : Except Err Unit × Spool :=
  let framed := frame kindRecord r.encode
  match appendActive env framed { s with history := s.history ++ [r] } with
  | (.error e, s) => (.error e, s)
  | (.ok offset, s) =>
    (.ok (), (s.accountActive 1).addEntry
      (entryOf env r framed.length (s.activeID.getD 0) offset))

/-- Take an entry out of the index and the list of its host.
SOURCE: spool.go:428-439 -/
def Spool.dropEntry (p : Nat) : Spool :=
  let item := s.heap p
  let list := (s.hostList item.hostID).erase p
  { s with
    index := s.index.erase item.id
    live := s.live - item.size
    byHost := if list = [] then s.byHost.erase item.hostID else s.byHost.insert item.hostID list }

/-- Write the tombstone of an entry to the active segment and forget the entry,
its place in the account of its segment included.
SOURCE: spool.go:423-441 -/
def entomb (p : Nat) (s : Spool) : Except Err Unit × Spool :=
  match appendActive env (frame kindTombstone (s.heap p).id.toList) s with
  | (.error e, s) => (.error e, s)
  | (.ok _, s) =>
    let s := ({ s.accountActive 0 with dirty := true }).dropEntry p
    (.ok (), { s with segments := modify s.segments (s.heap p).segment fun st =>
        { st with live := st.live - 1 } })

/-- Remove a segment in which nothing is alive, unless it is the active one.
SOURCE: spool.go:440-450 -/
def settle (id : Nat) (s : Spool) : Except Err Unit × Spool :=
  match s.segments.lookup id with
  | none => (.ok (), s)
  | some st =>
    if st.live ≤ 0 ∧ s.activeID ≠ some id then
      if (env.fault s.tick).isSome then (.error .io, s.next)
      else (.ok (), s.next.removeSegment id)
    else (.ok (), s)

/-- The record that stands at an offset of a file, when it is the one looked for.
SOURCE: spool.go:724-738 -/
def recordAt (content : Bytes) (offset : Nat) (id : UUID) : Except Err Record :=
  match readFrame (content.drop offset) with
  | .eof => .error .torn
  | .torn => .error .torn
  | .frame kind body _ =>
    if kind ≠ kindRecord then .error .tombstoneOffset
    else match decode body with
      | none => .error .undecodable
      | some r => if r.id ≠ id then .error .otherRecord else .ok r

/-- Read a record back from its segment.
SOURCE: spool.go:715-739 -/
def readLocked (p : Nat) (s : Spool) : Except Err Record × Spool :=
  (match s.files.lookup (s.heap p).segment with
    | none => .error .io
    | some content =>
      if (env.fault s.tick).isSome ∨ (env.fault (s.tick + 1)).isSome then .error .io
      else recordAt content (s.heap p).offset (s.heap p).id,
    { s with tick := s.tick + 2 })

/-! ## Compaction -/

/-- Copy one entry into the active segment.
SOURCE: spool.go:479-489 -/
def copyRecord (p : Nat) (s : Spool) : Except Err Unit × Spool :=
  match readLocked env p s with
  | (.error e, s) => (.error e, s)
  | (.ok r, s) =>
    match appendActive env (frame kindRecord r.encode) s with
    | (.error e, s) => (.error e, s)
    | (.ok offset, s) =>
      (.ok (), { s with
        heap := Function.update s.heap p
          { s.heap p with segment := s.activeID.getD 0, offset := offset } }.accountActive 1)

/-- Copy the entries that stand in one segment.
SOURCE: spool.go:475-490 -/
def copyEntries (env : Env) (id : Nat) : List Nat → Spool → Except Err Unit × Spool
  | [], s => (.ok (), s)
  | p :: rest, s =>
    if (s.heap p).segment ≠ id then copyEntries env id rest s
    else match copyRecord env p s with
      | (.error e, s) => (.error e, s)
      | (.ok _, s) => copyEntries env id rest s

/-- Empty one segment into the active one and remove it.
SOURCE: spool.go:475-497 -/
def compactRound (id : Nat) (s : Spool) : Except Err Unit × Spool :=
  match copyEntries env id (env.order s.tick s.pointers) s.next with
  | (.error e, s) => (.error e, s)
  | (.ok _, s) =>
    match syncActive env s with
    | (.error e, s) => (.error e, s)
    | (.ok _, s) =>
      if (env.fault s.tick).isSome then (.error .io, s.next)
      else (.ok (), s.next.removeSegment id)

/-- The rounds of a compaction, one for each older segment.
SOURCE: spool.go:474-498 -/
def compactRounds (env : Env) : List Nat → Spool → Except Err Unit × Spool
  | [], s => (.ok (), s)
  | id :: ids, s =>
    match compactRound env id s with
    | (.error e, s) => (.error e, s)
    | (.ok _, s) => compactRounds env ids s

/-- The segments a compaction empties, oldest first.
SOURCE: spool.go:467-473 -/
def Spool.olderSegments : List Nat :=
  (s.segments.keys.filter fun id => decide (s.activeID ≠ some id)).insertionSort (· ≤ ·)

/-- The part of a compaction behind its roll.
SOURCE: spool.go:467-499 -/
def compactOlder : Except Err Unit × Spool :=
  compactRounds env s.olderSegments s

/-- Read the frames of a segment, cutting a torn tail off the file.  A read that
fails is a torn frame to the walk, wherever it fails.
SOURCE: segment.go:123-151 -/
def walkSegment (id : Nat) (s : Spool) : Except Err (List Visit) × Spool :=
  match s.files.lookup id with
  | none => (.error .io, s.next)
  | some content =>
    if (env.openFault s.tick).isSome then (.error .io, s.next)
    else
      let w := match env.openFault (s.tick + 1) with
        | none => walk content
        | some n => walk (content.take n)
      if w.torn ∨ (env.openFault (s.tick + 1)).isSome then
        if (env.openFault (s.tick + 2)).isSome then (.error .io, { s with tick := s.tick + 3 })
        else
          (if (env.openFault (s.tick + 3)).isSome then .error .io else .ok w.visits,
            { s with tick := s.tick + 4, files := s.files.insert id (content.take w.stop) })
      else (.ok w.visits, { s with tick := s.tick + 2 })

/-- The record a tombstone names.
SOURCE: spool.go:752-756 -/
def tombstoneOf (v : Visit) : Option UUID :=
  if h : v.kind = kindTombstone ∧ v.body.length = 16 then some ⟨v.body, h.2⟩ else none

/-- The tombstones of every segment.
SOURCE: spool.go:747-762 -/
def collectTombstones (env : Env) :
    List Nat → List UUID → Spool → Except Err (List UUID) × Spool
  | [], tombstones, s => (.ok tombstones, s)
  | id :: ids, tombstones, s =>
    match walkSegment env id s with
    | (.error e, s) => (.error e, s)
    | (.ok visits, s) =>
      collectTombstones env ids (tombstones ++ visits.filterMap tombstoneOf) s

/-- Move an entry to a later copy of its record.
SOURCE: spool.go:798-804 -/
def Spool.supersede (p : Nat) (item : Entry) : Spool :=
  { s with
    live := s.live - (s.heap p).size + item.size
    segments := modify s.segments (s.heap p).segment fun st => { st with live := st.live - 1 }
    heap := Function.update s.heap p item }

/-- Index one record; the second component counts the living records of the segment
being read.
SOURCE: spool.go:786-812 -/
def indexEntry (item : Entry) (acc : Spool × Int) : Spool × Int :=
  match acc.1.index.lookup item.id with
  | some p => (acc.1.supersede p item, acc.2 + 1)
  | none => (acc.1.addEntry item, acc.2 + 1)

/-- Index one frame, unless it is no record, does not decode or is buried.
SOURCE: spool.go:766-785 -/
def indexVisit (tombstones : List UUID) (id : Nat) (acc : Spool × Int) (v : Visit) :
    Spool × Int :=
  if v.kind ≠ kindRecord then acc
  else match decode v.body with
    | none => ({ acc.1 with dropped := acc.1.dropped + 1 }, acc.2)
    | some r =>
      if r.id ∈ tombstones then acc
      else indexEntry (entryOf env r v.size id v.offset) acc

/-- Index the records of one segment and account it.
SOURCE: spool.go:764-825 -/
def indexSegment (tombstones : List UUID) (id : Nat) (s : Spool) :
    Except Err Unit × Spool :=
  match walkSegment env id s with
  | (.error e, s) => (.error e, s)
  | (.ok visits, s) =>
    let acc := visits.foldl (indexVisit env tombstones id) (s, 0)
    if (env.openFault acc.1.tick).isSome then (.error .io, acc.1.next)
    else (.ok (), { acc.1.next with
      segments := acc.1.segments.insert id ⟨id, (acc.1.content id).length, acc.2⟩
      nextID := if id > acc.1.nextID then id else acc.1.nextID })

/-- Index the records of every segment.
SOURCE: spool.go:763-826 -/
def indexSegments (env : Env) (tombstones : List UUID) :
    List Nat → Spool → Except Err Unit × Spool
  | [], s => (.ok (), s)
  | id :: ids, s =>
    match indexSegment env tombstones id s with
    | (.error e, s) => (.error e, s)
    | (.ok _, s) => indexSegments env tombstones ids s

/-- Remove the segments without a living record, except the newest.
SOURCE: spool.go:830-838 -/
def removeDead (env : Env) : List Nat → Spool → Except Err Unit × Spool
  | [], s => (.ok (), s)
  | id :: ids, s =>
    match s.segments.lookup id with
    | none => (.error .nilState, s)
    | some st =>
      if st.live = 0 ∧ id ≠ s.nextID then
        if (env.openFault s.tick).isSome then (.error .io, s.next)
        else removeDead env ids (s.next.removeSegment id)
      else removeDead env ids s

/-- Reopen the newest segment for appending.
SOURCE: spool.go:839-846 and segment.go:38-53 -/
def openSegment : Except Err Unit × Spool :=
  if s.nextID = 0 then (.ok (), s)
  else match walkSegment env s.nextID s with
    | (.error e, s) => (.error e, s)
    | (.ok _, s) =>
      if (env.openFault s.tick).isSome ∨ (env.openFault (s.tick + 1)).isSome then
        (.error .io, { s with tick := s.tick + 2 })
      else
        let size := (s.content s.nextID).length
        (.ok (), { s with
          tick := s.tick + 2
          active := some ⟨s.nextID, size, true⟩
          segments := modify s.segments s.nextID fun st => { st with size := size } })

/-- The identifiers of the segments in the directory, ascending.
SOURCE: segment.go:100-119 -/
def Spool.listSegments : List Nat :=
  (s.files.keys ++ s.aliases).insertionSort (· ≤ ·)

/-- A spool that remembers nothing, over the same directory.
SOURCE: spool.go:182-188 -/
def Spool.blank : Spool :=
  { s with
    index := ∅, byHost := ∅, segments := ∅, nextPtr := 0, active := none, nextID := 0, live := 0
    dropped := 0, expired := 0, dirty := false, closed := false, flushErr := none }

/-- Read every segment and build the index.
SOURCE: spool.go:742-848 -/
def rebuildSteps : Except Err Unit × Spool :=
  let ids := s.listSegments
  match collectTombstones env ids [] s with
  | (.error e, s) => (.error e, s)
  | (.ok tombstones, s) =>
    match indexSegments env tombstones ids s with
    | (.error e, s) => (.error e, s)
    | (.ok _, s) =>
      match removeDead env ids s with
      | (.error e, s) => (.error e, s)
      | (.ok _, s) => openSegment env s

/-- Open the spool over the directory as it stands: prepare and list the
directory, then rebuild.  An opening that fails leaves no spool to work with, which is a
closed one here.
SOURCE: spool.go:174-194 -/
def openSpool : Except Err Unit × Spool :=
  if (env.openFault s.tick).isSome ∨ (env.openFault (s.tick + 1)).isSome then
    (.error .io, { s.blank with tick := s.tick + 2, closed := true })
  else
    match rebuildSteps env { s.blank with tick := s.tick + 2 } with
    | (.error e, s) => (.error e, { s.blank with closed := true })
    | (.ok _, s) => (.ok (), s)

/-- A spool that was never opened, over a directory that holds the given files. -/
def Spool.unopened (o : Options) (files : AList fun _ : Nat => Bytes) (aliases : List Nat) :
    Spool :=
  { options := o.fill
    index := ∅, byHost := ∅, segments := ∅
    heap := fun _ => ⟨⟨List.replicate 16 0, rfl⟩, [], [], [], 0, 0, 0, none, false, 0, 0, 0, none,
      none⟩
    nextPtr := 0, active := none, nextID := 0, live := 0, dropped := 0, expired := 0
    dirty := false, closed := true, flushErr := none
    files := files, aliases := aliases, tick := 0, history := [] }

end Flotestro.RelaySpool
