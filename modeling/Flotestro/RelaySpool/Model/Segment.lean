import Flotestro.RelaySpool.Model.Record
import Mathlib.Data.List.AList
import Mathlib.Data.List.Sort

/-!
# Segments, the directory and the state of the spool

A `Spool` is what one process holds of the spool together with the directory it works
on.  The index and the lists by host share their entries in the source, so both hold
pointers here, which are numbers, into a `heap` of entries.  `files` is the directory: the
bytes under the name of each segment.  `aliases` are the numbers of further names that
read as a segment without being the name the spool writes (`segment-7.log`).

The operating system and the clock are an `Env`.  Every question to it takes the next
`tick`: the n-th file operation fails when `fault n` is some number, which for a write is
how many bytes still reached the file, and for a read how many were read before the
failure.  The operations of `Open` draw on `openFault` instead.  Iteration over a map of
the source runs in an order the environment chooses.

`history` is what `writeLocked` was handed so far.  No function of the model reads it.
-/

set_option autoImplicit false

namespace Flotestro.RelaySpool

open Library

/-- One frame as `walkSegment` hands it to its visitor.
SOURCE: segment.go:123 -/
structure Visit where
  kind : UInt8
  body : Bytes
  offset : Nat
  size : Nat

/-- The outcome of a walk: the frames visited, the offset behind the last of
them, and whether the walk met a torn frame there. -/
structure Walk where
  visits : List Visit
  stop : Nat
  torn : Bool

/-- Read the frames from an offset on; a frame takes at least its header, so the
length of what is left is fuel enough.
SOURCE: segment.go:130-150 -/
def walkFrom : Nat → Nat → Bytes → Walk
  | 0, offset, _ => ⟨[], offset, false⟩
  | fuel + 1, offset, r =>
    match readFrame r with
    | .eof => ⟨[], offset, false⟩
    | .torn => ⟨[], offset, true⟩
    | .frame kind body rest =>
      let size := headerSize + body.length
      let next := walkFrom fuel (offset + size) rest
      ⟨⟨kind, body, offset, size⟩ :: next.visits, next.stop, next.torn⟩

def walkAt (offset : Nat) (r : Bytes) : Walk := walkFrom r.length offset r

/-- The walk of a whole file. -/
def walk (content : Bytes) : Walk := walkAt 0 content

/-- The bounds of a spool.
SOURCE: spool.go:30-55 -/
structure Options where
  site : Bytes
  maxBytes : Int
  criticalReserveBytes : Int
  minFreeBytes : Int
  ackTimeout : Int
  maxInflightPerHost : Int
  segmentBytes : Int

def defaultMaxBytes : Int := 2 ^ 30
def defaultCriticalReserveBytes : Int := 128 * 2 ^ 20
def defaultAckTimeout : Int := 30 * 10 ^ 9
def defaultMaxInflightPerHost : Int := 64
def defaultSegmentBytes : Int := 16 * 2 ^ 20

/-- The defaults put in for what is not set.
SOURCE: spool.go:68-96 -/
def Options.fill (o : Options) : Options :=
  let maxBytes := if o.maxBytes ≤ 0 then defaultMaxBytes else o.maxBytes
  let reserve :=
    if o.criticalReserveBytes ≤ 0 then defaultCriticalReserveBytes else o.criticalReserveBytes
  { o with
    maxBytes := maxBytes
    criticalReserveBytes := if reserve > maxBytes then maxBytes else reserve
    minFreeBytes := if o.minFreeBytes < 0 then 0 else o.minFreeBytes
    ackTimeout := if o.ackTimeout ≤ 0 then defaultAckTimeout else o.ackTimeout
    maxInflightPerHost :=
      if o.maxInflightPerHost ≤ 0 then defaultMaxInflightPerHost else o.maxInflightPerHost
    segmentBytes := if o.segmentBytes ≤ 0 then defaultSegmentBytes else o.segmentBytes }

/-- The operating system, the clock and the generators a spool runs against. -/
structure Env where
  fault : Nat → Option Nat
  openFault : Nat → Option Nat
  free : Nat → Option UInt64
  now : Nat → Time
  newID : Nat → UUID
  order : Nat → List Nat → List Nat
  order_perm : ∀ n l, (order n l).Perm l
  /-- What the protobuf library says of the message under a payload and an envelope: that
  it decodes and carries a full inventory report. -/
  inventoryFull : Bytes → Bytes → Bool

/-- Whether a record carries a full inventory report.
SOURCE: record.go:106-115 -/
def Record.full (env : Env) (r : Record) : Bool :=
  decide (r.stream = streamInventory) && env.inventoryFull r.payload r.envelope

inductive Err where
  /-- `resource_exhausted: the spool of the relay has no room for this class` -/
  | exhausted
  /-- `relay_spool_critical: the spool of the relay is full` -/
  | critical
  /-- `the spool is closed` -/
  | closed
  /-- A file operation the system refused, or one on a file already closed. -/
  | io
  /-- A torn frame or the end of the file where a record was indexed. -/
  | torn
  /-- `the offset names a tombstone` -/
  | tombstoneOffset
  /-- `the offset names another record` -/
  | otherRecord
  /-- A body `decode` does not take. -/
  | undecodable
  /-- A segment listed twice whose state is gone: the source dereferences nil. -/
  | nilState
  deriving DecidableEq

/-- What the index keeps of a record.
SOURCE: spool.go:100-118 -/
structure Entry where
  id : UUID
  hostID : Bytes
  sessionID : Bytes
  stream : Bytes
  priority : UInt8
  sequence : UInt64
  createdAt : Time
  expiresAt : Option Time
  full : Bool
  size : Nat
  segment : Nat
  offset : Nat
  sentAt : Option Time
  firstSentAt : Option Time

/-- The account of one segment file.
SOURCE: spool.go:167-171 -/
structure SegmentState where
  id : Nat
  size : Nat
  live : Int

/-- The active file; `opened` is false once it was closed.
SOURCE: segment.go:16-20 -/
structure Segment where
  id : Nat
  size : Nat
  opened : Bool

/-- A spool and its directory.
SOURCE: spool.go:144-163 -/
structure Spool where
  options : Options
  index : AList fun _ : UUID => Nat
  byHost : AList fun _ : Bytes => List Nat
  segments : AList fun _ : Nat => SegmentState
  heap : Nat → Entry
  nextPtr : Nat
  active : Option Segment
  nextID : Nat
  live : Int
  dropped : Nat
  expired : Nat
  dirty : Bool
  closed : Bool
  flushErr : Option Err
  files : AList fun _ : Nat => Bytes
  aliases : List Nat
  tick : Nat
  history : List Record

/-- The entry the index makes of a record.
SOURCE: spool.go:382-387 and spool.go:780-785 -/
def entryOf (env : Env) (r : Record) (size segment offset : Nat) : Entry :=
  { id := r.id, hostID := r.hostID, sessionID := r.sessionID, stream := r.stream
    priority := r.priority, sequence := r.sequence, createdAt := r.createdAt
    expiresAt := r.expiresAt, full := r.full env, size, segment, offset
    sentAt := none, firstSentAt := none }

/-- Change the value a key holds, when it holds one. -/
def modify {α : Type} {β : Type} [DecidableEq α] (m : AList fun _ : α => β) (k : α)
    (f : β → β) : AList fun _ : α => β :=
  match m.lookup k with
  | none => m
  | some v => m.insert k (f v)

/-- The entries of a host, in the order they came. -/
def Spool.hostList (s : Spool) (hostID : Bytes) : List Nat := (s.byHost.lookup hostID).getD []

def Spool.pointers (s : Spool) : List Nat := s.index.entries.map (·.2)

/-- The number of the active segment, when there is one. -/
def Spool.activeID (s : Spool) : Option Nat := s.active.map (·.id)

/-- What the segments take on disk together.
SOURCE: spool.go:322-328 -/
def Spool.diskLocked (s : Spool) : Int := (s.segments.entries.map fun e => (e.2.size : Int)).sum

end Flotestro.RelaySpool
