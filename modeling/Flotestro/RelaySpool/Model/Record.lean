import Flotestro.Library.Digest

/-!
# The record of the relay's spool and its encoding

`Record` is one spooled message; `Record.encode` writes its body and `decode` reads it
back, with the widths the source uses: sixteen bits for the length of the site, the host
and the session, eight for the stream, thirty-two for the envelope and the payload, and
no check on the writing side that a length fits.  `frame` and `readFrame` are the frame
around a body: a magic, the kind, the length and the checksum.

Times are nanoseconds since the Unix epoch; `unixNano` writes them in sixty-four bits.
Strings of the source are byte strings.
-/

set_option autoImplicit false

namespace Flotestro.RelaySpool

open Library

/-- An instant, in nanoseconds since the Unix epoch. -/
abbrev Time := Int

/-- The identifier of a record. -/
abbrev UUID := List.Vector UInt8 16

instance : LawfulBEq UUID := inferInstance

def streamControl : Bytes := ascii ['c', 'o', 'n', 't', 'r', 'o', 'l']
def streamJobResult : Bytes := ascii ['j', 'o', 'b', '_', 'r', 'e', 's', 'u', 'l', 't']
def streamInventory : Bytes := ascii ['i', 'n', 'v', 'e', 'n', 't', 'o', 'r', 'y']
def streamMetric : Bytes := ascii ['m', 'e', 't', 'r', 'i', 'c']

def priorityControl : UInt8 := 0
def priorityJobResult : UInt8 := 1
def priorityInventory : UInt8 := 2
def priorityMetric : UInt8 := 3
def priorityLog : UInt8 := 4

/-- The priority of a stream; an unknown stream goes last.
SOURCE: record.go:43-55 -/
def priorityOf (stream : Bytes) : UInt8 :=
  if stream = streamControl then priorityControl
  else if stream = streamJobResult then priorityJobResult
  else if stream = streamInventory then priorityInventory
  else if stream = streamMetric then priorityMetric
  else priorityLog

/-- Whether a stream is written ahead of the live forward.
SOURCE: record.go:62-64 -/
def durable (stream : Bytes) : Bool := priorityOf stream ≤ priorityInventory

/-- One spooled message.
SOURCE: record.go:83-102 -/
structure Record where
  id : UUID
  site : Bytes
  hostID : Bytes
  sessionID : Bytes
  stream : Bytes
  priority : UInt8
  sequence : UInt64
  createdAt : Time
  expiresAt : Option Time
  envelope : Bytes
  payload : Bytes
  payloadHash : List.Vector UInt8 32

def headerSize : Nat := 13
def kindRecord : UInt8 := 1
def kindTombstone : UInt8 := 2
def bodyVersion : UInt8 := 1

/-- The bound of one body on the reading side.
SOURCE: record.go:247 -/
def maxRecordBytes : Nat := 64 * 2 ^ 20

/-- The length the body of a record is expected to have.
SOURCE: record.go:249-253 -/
def Record.bodySize (r : Record) : Nat :=
  1 + 16 + 1 + 8 + 8 + 8 +
    2 + r.site.length + 2 + r.hostID.length + 2 + r.sessionID.length + 1 + r.stream.length +
    32 + 4 + r.envelope.length + 4 + r.payload.length

/-- The room a record takes in a segment, header included.
SOURCE: record.go:137-139 -/
def Record.size (r : Record) : Nat := headerSize + r.bodySize

/-- The nanoseconds of an instant as the 64-bit word the body carries. -/
def unixNano (t : Time) : Nat := (t % 2 ^ 64).toNat

/-- A 64-bit word read as a signed number. -/
def int64 (n : Nat) : Int := if n < 2 ^ 63 then n else n - 2 ^ 64

/-- The word the body carries for an expiry, zero for none.
SOURCE: record.go:268-272 -/
def expiryWord : Option Time → Nat
  | some t => unixNano t
  | none => 0

/-- A string behind its length in sixteen bits, whatever its length.
SOURCE: record.go:273-277 -/
def put16 (value : Bytes) : Bytes := putLE 2 value.length ++ value

/-- A string behind its length in thirty-two bits, whatever its length.
SOURCE: record.go:284-288 -/
def put32 (value : Bytes) : Bytes := putLE 4 value.length ++ value

/-- The body of a record.
SOURCE: record.go:256-292 -/
def Record.encode (r : Record) : Bytes :=
  bodyVersion :: (r.id.toList ++ (r.priority :: (putLE 8 r.sequence.toNat ++
    (putLE 8 (unixNano r.createdAt) ++ (putLE 8 (expiryWord r.expiresAt) ++
    (put16 r.site ++ (put16 r.hostID ++ (put16 r.sessionID ++
    (UInt8.ofNat r.stream.length :: (r.stream ++ (r.payloadHash.toList ++
    (put32 r.envelope ++ put32 r.payload))))))))))))

/-- A string behind a length of `width` bytes.
SOURCE: record.go:331-340 and record.go:362-371 -/
def readString (width : Nat) (r : Bytes) : Option (Bytes × Bytes) := do
  let (length, r) ← readFull width r
  readFull (getLE length) r

/-- The expiry a word of the body stands for.
SOURCE: record.go:327-330 -/
def expiryOf (word : Nat) : Option Time := if word = 0 then none else some (int64 word)

/-- The record a body holds.  Bytes behind the payload are not looked at.
SOURCE: record.go:295-382 -/
def decode (body : Bytes) : Option Record := do
  let (version, r) ← readFull 1 body
  if version ≠ [bodyVersion] then none else
  let (id, r) ← readFixed 16 r
  let (priority, r) ← readFull 1 r
  let (sequence, r) ← readFull 8 r
  let (created, r) ← readFull 8 r
  let (expires, r) ← readFull 8 r
  let (site, r) ← readString 2 r
  let (hostID, r) ← readString 2 r
  let (sessionID, r) ← readString 2 r
  let (stream, r) ← readString 1 r
  let (payloadHash, r) ← readFixed 32 r
  let (envelope, r) ← readString 4 r
  let (payload, _) ← readString 4 r
  if sha256 payload ≠ payloadHash then none else
  some
    { id, site, hostID, sessionID, stream
      priority := UInt8.ofNat (getLE priority)
      sequence := UInt64.ofNat (getLE sequence)
      createdAt := int64 (getLE created)
      expiresAt := expiryOf (getLE expires)
      envelope, payload, payloadHash }

def magic : Bytes := ascii ['F', 'S', 'P', '1']

/-- A header and a body, as one byte string.
SOURCE: record.go:206-214 -/
def frame (kind : UInt8) (body : Bytes) : Bytes :=
  magic ++ (kind :: (putLE 4 body.length ++ (putLE 4 (crc32c body) ++ body)))

inductive FrameRead where
  | eof
  | torn
  | frame (kind : UInt8) (body rest : Bytes)

/-- Read one frame from the front of a byte string.
SOURCE: record.go:217-242 -/
def readFrame (r : Bytes) : FrameRead :=
  match readFull headerSize r with
  | none => if r = [] then .eof else .torn
  | some (header, r) =>
    if header.take 4 ≠ magic then .torn
    else if maxRecordBytes < getLE ((header.drop 5).take 4) then .torn
    else match readFull (getLE ((header.drop 5).take 4)) r with
      | none => .torn
      | some (body, rest) =>
        if crc32c body ≠ getLE (header.drop 9) then .torn
        else .frame (header.getD 4 0) body rest

end Flotestro.RelaySpool
