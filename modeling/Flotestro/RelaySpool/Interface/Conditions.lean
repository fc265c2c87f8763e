import Flotestro.Library.TombstoneLog
import Flotestro.RelaySpool.Model.Program

/-!
# The log of the segment files, and conditions on a run

The files of the spool read as a log with tombstones: a frame of a record that decodes puts the record
under its identifier, with the place it stands at; a tombstone of sixteen bytes buries its identifier;
any other frame says nothing.  `Spool.log` is that reading of the directory.

What a run of the spool has to meet for its guarantees to hold, as conditions on each command
and the state it is issued in.  All of them are decided by running the program.

* `NewRecords`: a record handed to `writeLocked` bears a new identifier and fits a frame;
* `EncodableRecords`: its fields fit the lengths `encode` writes;
* `WholeWrites`: no frame is written behind the part of a frame a failed write left;
* `KeepsGuards`: no segment is removed for being dead that holds the last tombstone of a record
  still standing in another.
-/

set_option autoImplicit false

namespace Flotestro.RelaySpool

open Library

/-- A record as it stands in a segment. -/
structure Placed where
  record : Record
  offset : Nat
  size : Nat

def itemOf (v : Visit) : Option (Item UUID Placed) :=
  if v.kind = kindRecord then (decode v.body).map fun r => .put r.id ⟨r, v.offset, v.size⟩
  else (tombstoneOf v).map .del

/-- What the content of a segment says. -/
def logOf (content : Bytes) : List (Item UUID Placed) := (walk content).visits.filterMap itemOf

variable (s : Spool)

/-- What the segment files of a spool say. -/
def Spool.log : Log Nat UUID Placed := fun g => logOf (s.content g)

def Spool.indexed : Set UUID := {id | id ∈ s.index}

/-- The identifiers `writeLocked` was handed so far. -/
def Spool.handed : List UUID := s.history.map (·.id)

/-- A number of sixty-four bits with its sign. -/
def FitsInt64 (t : Int) : Prop := -2 ^ 63 ≤ t ∧ t < 2 ^ 63

instance (t : Int) : Decidable (FitsInt64 t) :=
  inferInstanceAs (Decidable (-2 ^ 63 ≤ t ∧ t < 2 ^ 63))

/-- Every field of the record fits the width the encoding gives it, and the hash
is the hash of the payload. -/
structure Record.Encodable (r : Record) : Prop where
  site : r.site.length < 2 ^ 16
  hostID : r.hostID.length < 2 ^ 16
  sessionID : r.sessionID.length < 2 ^ 16
  stream : r.stream.length < 2 ^ 8
  envelope : r.envelope.length < 2 ^ 32
  payload : r.payload.length < 2 ^ 32
  payloadHash : sha256 r.payload = r.payloadHash
  createdAt : FitsInt64 r.createdAt
  expiresAt : ∀ t ∈ r.expiresAt, FitsInt64 t ∧ t ≠ 0

instance (r : Record) : Decidable r.Encodable :=
  decidable_of_iff
    (r.site.length < 2 ^ 16 ∧ r.hostID.length < 2 ^ 16 ∧ r.sessionID.length < 2 ^ 16 ∧
      r.stream.length < 2 ^ 8 ∧ r.envelope.length < 2 ^ 32 ∧ r.payload.length < 2 ^ 32 ∧
      sha256 r.payload = r.payloadHash ∧ FitsInt64 r.createdAt ∧
      ∀ t ∈ r.expiresAt, FitsInt64 t ∧ t ≠ 0)
    ⟨fun ⟨a, b, c, d, e, f, g, h, i⟩ => ⟨a, b, c, d, e, f, g, h, i⟩,
      fun ⟨a, b, c, d, e, f, g, h, i⟩ => ⟨a, b, c, d, e, f, g, h, i⟩⟩

/-- The record a command hands to `writeLocked`. -/
def Cmd.record : Cmd → Option Record
  | .writeRecord r => some r
  | _ => none

/-- A record handed to `writeLocked` bears an identifier no record before it bore, and
its body is within the bound of a frame. -/
def NewRecords (c : Cmd) (s : Spool) : Prop :=
  ∀ r ∈ c.record, r.id ∉ s.handed ∧ r.bodySize ≤ maxRecordBytes

instance (c : Cmd) (s : Spool) : Decidable (NewRecords c s) :=
  inferInstanceAs (Decidable (∀ r ∈ c.record, r.id ∉ s.handed ∧ r.bodySize ≤ maxRecordBytes))

/-- No entry the process made so far bears the identifier. -/
def Spool.Unused (id : UUID) : Prop := ∀ p < s.nextPtr, (s.heap p).id ≠ id

instance (s : Spool) (id : UUID) : Decidable (s.Unused id) :=
  inferInstanceAs (Decidable (∀ p < s.nextPtr, (s.heap p).id ≠ id))

def EncodableRecords (c : Cmd) (_ : Spool) : Prop := ∀ r ∈ c.record, r.Encodable

instance (c : Cmd) (s : Spool) : Decidable (EncodableRecords c s) :=
  inferInstanceAs (Decidable (∀ r ∈ c.record, r.Encodable))

/-- The active file is as long as the spool thinks: no failed write left bytes behind
its last frame. -/
def Spool.Whole : Prop := ∀ a ∈ s.active, (s.content a.id).length = a.size

instance (s : Spool) : Decidable s.Whole :=
  inferInstanceAs (Decidable (∀ a ∈ s.active, (s.content a.id).length = a.size))

def Cmd.writes : Cmd → Bool
  | .writeRecord _ | .entomb _ | .compactOlder => true
  | _ => false

/-- A frame is written to a whole file only. -/
def WholeWrites (c : Cmd) (s : Spool) : Prop := c.writes = true → s.Whole

instance (c : Cmd) (s : Spool) : Decidable (WholeWrites c s) :=
  inferInstanceAs (Decidable (c.writes = true → s.Whole))

def Spool.puts (g : Nat) : List UUID := (s.log g).filterMap Item.putKey

def Spool.buries (g : Nat) : List UUID := (s.log g).filterMap Item.delKey

/-- Every record another segment still holds and this one buries is buried elsewhere
too. -/
def Spool.DropSafe (g : Nat) : Prop :=
  ∀ k ∈ s.buries g, ∀ g' ∈ s.files.keys, g' ≠ g → k ∈ s.puts g' →
    ∃ g'' ∈ s.files.keys, g'' ≠ g ∧ k ∈ s.buries g''

-- Identifiers are finitely many, so the search has to be told to go through the segment.
instance (s : Spool) (g : Nat) : Decidable (s.DropSafe g) :=
  List.decidableBAll (fun k => ∀ g' ∈ s.files.keys, g' ≠ g → k ∈ s.puts g' →
    ∃ g'' ∈ s.files.keys, g'' ≠ g ∧ k ∈ s.buries g'') (s.buries g)

/-- A start of the process removes the segment: it is not the newest, and each record
in it is buried or stands in a later segment as well. -/
def Spool.Doomed (g : Nat) : Prop :=
  (∃ g' ∈ s.files.keys, g < g') ∧
    ∀ k ∈ s.puts g, (∃ g' ∈ s.files.keys, k ∈ s.buries g') ∨
      ∃ g' ∈ s.files.keys, g < g' ∧ k ∈ s.puts g'

instance (s : Spool) (g : Nat) : Decidable (s.Doomed g) :=
  @instDecidableAnd _ _ (List.decidableBEx (g < ·) s.files.keys)
    (List.decidableBAll (fun k => (∃ g' ∈ s.files.keys, k ∈ s.buries g') ∨
      ∃ g' ∈ s.files.keys, g < g' ∧ k ∈ s.puts g') (s.puts g))

/-- The segments a start keeps. -/
def Spool.spared : List Nat := s.files.keys.filter fun g => ¬s.Doomed g

/-- Every record that stays in a segment a start keeps and is buried in one it removes
is buried in one it keeps. -/
def Spool.OpenSafe : Prop :=
  ∀ g ∈ s.files.keys, s.Doomed g → ∀ k ∈ s.buries g, ∀ g' ∈ s.spared, k ∈ s.puts g' →
    ∃ g'' ∈ s.spared, k ∈ s.buries g''

instance (s : Spool) : Decidable s.OpenSafe :=
  have (g : Nat) := List.decidableBAll (fun k => ∀ g' ∈ s.spared, k ∈ s.puts g' →
    ∃ g'' ∈ s.spared, k ∈ s.buries g'') (s.buries g)
  inferInstanceAs (Decidable (∀ g ∈ s.files.keys, s.Doomed g → ∀ k ∈ s.buries g,
    ∀ g' ∈ s.spared, k ∈ s.puts g' → ∃ g'' ∈ s.spared, k ∈ s.buries g''))

/-- `deleteLocked` removes the segment: nothing in it is alive and it is not the
active one. -/
def Spool.Settles (g : Nat) : Prop :=
  s.activeID ≠ some g ∧ ∃ st ∈ s.segments.lookup g, st.live ≤ 0

instance (s : Spool) (g : Nat) : Decidable (s.Settles g) :=
  inferInstanceAs (Decidable (s.activeID ≠ some g ∧ ∃ st ∈ s.segments.lookup g, st.live ≤ 0))

/-- The segment a command looks at to remove it. -/
def Cmd.settled : Cmd → Option Nat
  | .settle g => some g
  | _ => none

def Cmd.starts : Cmd → Bool
  | .openSpool => true
  | _ => false

/-- The removal of a dead segment, by `deleteLocked` or by a start, takes away no
tombstone that is the last to bury a record which stays. -/
def KeepsGuards (c : Cmd) (s : Spool) : Prop :=
  (∀ g ∈ c.settled, s.Settles g → s.DropSafe g) ∧ (c.starts = true → s.OpenSafe)

instance (c : Cmd) (s : Spool) : Decidable (KeepsGuards c s) :=
  inferInstanceAs (Decidable
    ((∀ g ∈ c.settled, s.Settles g → s.DropSafe g) ∧ (c.starts = true → s.OpenSafe)))

/-! ## Admission and the life of a process -/

/-- The record is within the quota of its priority, and above the floor of free space
whenever the system is asked. -/
def Spool.Fits (env : Env) (s : Spool) (r : Record) : Prop :=
  s.live + r.size ≤ s.options.limit r.priority ∧ ∀ t, s.options.clears (env.free t) r.size = true

/-- The commands that end the work of a process on the spool, or begin it. -/
def Cmd.ends : Cmd → Bool
  | .close | .note .closed | .openSpool => true
  | _ => false

/-! ## A calm environment

The environment, the records and the bounds that the concrete runs of this development are made
of. -/

/-- An identifier of sixteen equal bytes. -/
def uid (n : UInt8) : UUID := ⟨List.replicate 16 n, List.length_replicate⟩

/-- An environment in which nothing fails and no time passes. -/
def calm : Env where
  fault _ := none
  openFault _ := none
  free _ := none
  now _ := 0
  newID n := uid (UInt8.ofNat n)
  order _ l := l
  order_perm _ l := .refl l
  inventoryFull _ _ := false

/-- A calm environment but for the file operation at one tick, of which a write still
gets some bytes into the file. -/
def failing (tick bytes : Nat) : Env :=
  { calm with fault := fun t => if t = tick then some bytes else none }

/-- A small message of the control stream, one hundred and eleven bytes in its frame. -/
def smallRecord (n : UInt8) : Record where
  id := uid n
  site := [1]
  hostID := [1]
  sessionID := []
  stream := streamControl
  priority := priorityControl
  sequence := 0
  createdAt := 0
  expiresAt := none
  envelope := []
  payload := []
  payloadHash := sha256 []

/-- Bounds under which the second record fills a segment. -/
def smallOptions : Options where
  site := []
  maxBytes := 4096
  criticalReserveBytes := 1
  minFreeBytes := 0
  ackTimeout := 1
  maxInflightPerHost := 1
  segmentBytes := 130

/-- Bounds under which a few dead records start a compaction. -/
def crowdedOptions : Options := { smallOptions with maxBytes := 400 }

/-! ## What it means to survive a restart -/

/-- Two entries describe the same message, wherever its record stands. -/
structure Entry.SameMessage (e e' : Entry) : Prop where
  hostID : e'.hostID = e.hostID
  sessionID : e'.sessionID = e.sessionID
  stream : e'.stream = e.stream
  priority : e'.priority = e.priority
  sequence : e'.sequence = e.sequence
  createdAt : e'.createdAt = e.createdAt
  expiresAt : e'.expiresAt = e.expiresAt

/-- The spool keeps an identifier once: the index names one entry that bears it, and of
all the lists by host only the list of that entry's host holds it, once. -/
structure Spool.KeptOnce (s : Spool) (id : UUID) (p : Nat) : Prop where
  lookup : s.index.lookup id = some p
  index : ∀ q ∈ s.pointers, (s.heap q).id = id → q = p
  byHost : ∀ h, (s.hostList h).filter (fun q => (s.heap q).id = id) =
    if h = (s.heap p).hostID then [p] else []

/-- On a disk that works `readLocked` returns the record for the entry. -/
def Spool.ReadsBack (p : Nat) (r : Record) : Prop :=
  ∀ env : Env, (∀ t, env.fault t = none) → (readLocked env p s).1 = .ok r

/-- The only record handed to the spool under its identifier. -/
structure Spool.Appended (s : Spool) (r : Record) : Prop where
  mem : r ∈ s.history
  only : ∀ r' ∈ s.history, r'.id = r.id → r' = r

/-- The record and the file it goes to are such that it survives: it is new, it can be
encoded, and no torn frame stands before it. -/
def Surviving (c : Cmd) (s : Spool) : Prop :=
  NewRecords c s ∧ EncodableRecords c s ∧ WholeWrites c s

instance (c : Cmd) (s : Spool) : Decidable (Surviving c s) :=
  inferInstanceAs (Decidable (NewRecords c s ∧ EncodableRecords c s ∧ WholeWrites c s))

end Flotestro.RelaySpool
