import Mathlib.Data.List.Sort

/-!
# The result spool of the agent

The results the panel has not acknowledged, one file each.  Every operation holds the lock of the spool
but `Pending`, which takes a copy of the entries under the lock and then reads the files and forgets
what it could not read one by one.  Attempts, keys and digests are numbers; a file is named by the
sequence of its entry, and its content is the entry's.
-/

set_option autoImplicit false

namespace Flotestro.ResultSpool

/-- SOURCE: resultspool.go:58-60 -/
def resultSpoolHeader : Nat := 8

/-- One result on disk; `digest` is the digest of its content.  SOURCE: resultspool.go:88-99 -/
structure Entry where
  sequence : Nat
  taskID : Nat
  idempotencyKey : Option Nat
  spooledAt : Int
  size : Nat
  digest : Nat
  deriving DecidableEq

/-- A result to be spooled: `body` is the length of its encoding. -/
structure Result where
  taskID : Nat
  idempotencyKey : Option Nat
  body : Nat
  digest : Nat

/-- A file of the directory at a start: the number and the attempt of its name, and the result in
it, where they can be read. -/
structure Item where
  name : Option (Nat × Nat)
  content : Option Result
  modTime : Int
  size : Nat

structure Ack where
  taskID : Nat
  idempotencyKey : Option Nat
  resultDigest : Option Nat

/-- A `Pending` on its way, and the delivery after it: the entries it has not read, the one it could
not read, and the results to be sent.  The delivery of a new result has this one to send. -/
structure Reading where
  left : List Entry
  failed : Option Entry
  owed : List Entry

/-- The spool and the calls that run.  `stuck` says which files cannot be
removed. -/
structure Spool where
  limit : Nat
  maxSize : Nat
  ttl : Int
  sequence : Nat
  entries : List Entry
  bytes : Int
  files : List Nat
  stuck : Nat → Bool
  readings : Nat → Reading

namespace Spool

variable (s : Spool)

/-- Entries leave the spool, each with its file and its bytes. -/
def drop (kept dropped : List Entry) : Spool :=
  { s with
    entries := kept
    bytes := dropped.foldl (fun bytes x => bytes - x.size) s.bytes
    files := s.files.filter fun f => s.stuck f || dropped.all (·.sequence ≠ f) }

/-- SOURCE: resultspool.go:420-433 -/
def forget (taskID : Nat) : Spool :=
  match s.entries.find? (·.taskID = taskID) with
  | none => s
  | some x => s.drop (s.entries.eraseP (·.taskID = taskID)) [x]

/-- The entries that leave a spool that is too full, oldest first. -/
def overflow (limit maxSize : Nat) : List Entry → Int → List Entry
  | [], _ => []
  | x :: rest, bytes =>
    if rest.length + 1 > limit ∨ bytes > maxSize ∧ rest.length + 1 > 1 then
      x :: overflow limit maxSize rest (bytes - x.size)
    else []

/-- SOURCE: resultspool.go:435-450 -/
def evict : Spool :=
  let dropped := overflow s.limit s.maxSize s.entries s.bytes
  s.drop (s.entries.drop dropped.length) dropped

/-- SOURCE: resultspool.go:398-419 -/
def expire (now : Int) : Spool :=
  s.drop (s.entries.filter fun x => now - x.spooledAt < s.ttl)
    (s.entries.filter fun x => !decide (now - x.spooledAt < s.ttl))

def entryOf (now : Int) (result : Result) : Entry where
  sequence := s.sequence + 1
  taskID := result.taskID
  idempotencyKey := result.idempotencyKey
  spooledAt := now
  size := result.body + resultSpoolHeader
  digest := result.digest

/-- The result is written and takes its place. -/
def push (x : Entry) : Spool :=
  { s with
    sequence := x.sequence
    entries := s.entries ++ [x]
    bytes := s.bytes + x.size
    files := x.sequence :: s.files }

/-- `written` says whether the file could be written.  SOURCE: resultspool.go:228-260 -/
def enqueue (now : Int) (result : Result) (written : Bool) : Spool :=
  if result.body + resultSpoolHeader > s.maxSize then s
  else
    let s := s.forget result.taskID
    if written then (s.push (s.entryOf now result)).evict else { s with sequence := s.sequence + 1 }

/-- The acknowledgement is about the answer that is held.  SOURCE: resultspool.go:339-365 -/
def Entry.acknowledgedBy (x : Entry) (ack : Ack) : Bool :=
  (x.idempotencyKey = none || x.idempotencyKey = ack.idempotencyKey) &&
    (ack.resultDigest = none || ack.resultDigest = some x.digest)

/-- SOURCE: resultspool.go:316-372 -/
def acknowledge (ack : Ack) : Spool :=
  match s.entries.find? (·.taskID = ack.taskID) with
  | none => s
  | some x => if Entry.acknowledgedBy x ack then s.forget ack.taskID else s

/-- The entry of a file; a file without one is discarded.  SOURCE: resultspool.go:183-214 -/
def Item.entry (item : Item) : Option Entry :=
  match item.name, item.content with
  | some (sequence, taskID), some result =>
    if result.taskID = taskID then
      some ⟨sequence, taskID, result.idempotencyKey, item.modTime, item.size, result.digest⟩
    else none
  | _, _ => none

/-- The spool over the files of the directory.  Several of them may answer one attempt: an older one
whose removal failed comes back.  SOURCE: resultspool.go:178-223 -/
def load (limit maxSize : Nat) (ttl : Int) (stuck : Nat → Bool) (listing : List Item) : Spool :=
  let entries := (listing.filterMap Item.entry).insertionSort fun x y => x.sequence ≤ y.sequence
  evict
    { limit := limit
      maxSize := maxSize
      ttl := ttl
      sequence := entries.foldl (fun sequence x => max sequence x.sequence) 0
      entries := entries
      bytes := entries.foldl (fun bytes x => bytes + x.size) 0
      files := entries.map Entry.sequence
      stuck := stuck
      readings := fun _ => ⟨[], none, []⟩ }

def setReading (p : Nat) (reading : Reading) : Spool :=
  { s with readings := fun q => if q = p then reading else s.readings q }

/-- What can happen; a `Pending` is an `expire`, a `snapshot`, and a `read` for each entry,
with a `giveUp` after a read that failed.  A delivery spools its result, or takes those a `Pending` has
read, and is done with each of them by `sent`, with a `Forget` or without.
SOURCE: resultdelivery.go:122-190 -/
inductive Event where
  | enqueue (now : Int) (result : Result) (written : Bool) (p : Nat)
  | acknowledge (ack : Ack)
  | sent (p : Nat) (x : Entry) (forgets : Bool)
  | expire (now : Int)
  | snapshot (p : Nat)
  | read (p : Nat)
  | giveUp (p : Nat)

/-- SOURCE: resultspool.go:281-303 -/
def step : Event → Spool → Option Spool
  | .enqueue now result written p, s =>
    let x := (s.forget result.taskID).entryOf now result
    some ((s.enqueue now result written).setReading p ⟨[], none, [x]⟩)
  | .acknowledge ack, s => some (s.acknowledge ack)
  | .sent p x forgets, s =>
    let r := s.readings p
    if x ∈ r.owed then
      some ((if forgets then s.forget x.taskID else s).setReading p { r with owed := r.owed.erase x })
    else none
  | .expire now, s => some (s.expire now)
  | .snapshot p, s => some (s.setReading p ⟨s.entries, none, []⟩)
  | .read p, s =>
    match s.readings p with
    | ⟨x :: rest, none, owed⟩ =>
      if x.sequence ∈ s.files then some (s.setReading p ⟨rest, none, x :: owed⟩)
      else some (s.setReading p ⟨rest, some x, owed⟩)
    | _ => none
  | .giveUp p, s =>
    match s.readings p with
    | ⟨rest, some x, owed⟩ => some ((s.forget x.taskID).setReading p ⟨rest, none, owed⟩)
    | _ => none

end Spool

end Flotestro.ResultSpool
