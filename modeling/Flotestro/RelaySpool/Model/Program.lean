import Flotestro.Library.Command
import Flotestro.RelaySpool.Model.Operations

/-!
# The functions of the spool as programs

Every exported function of the spool takes the lock and runs to its end, so a run of the
spool is a sequence of whole programs.  `Cmd` lists the primitive operations and the
questions to the environment, `step` says what each does, and the functions of the source
follow as programs over them.
-/

set_option autoImplicit false

namespace Flotestro.RelaySpool

open Library

/-- The counters and flags a function sets on its way. -/
inductive Note where
  | dropped
  | expired
  | dirty (b : Bool)
  | flushErr (e : Option Err)
  | closed

/-- The spool with a counter or a flag set. -/
def Note.apply : Note → Spool → Spool
  | .dropped, s => { s with dropped := s.dropped + 1 }
  | .expired, s => { s with expired := s.expired + 1 }
  | .dirty b, s => { s with dirty := b }
  | .flushErr e, s => { s with flushErr := e }
  | .closed, s => { s with closed := true, active := none }

/-- What a function of the spool does one at a time. -/
inductive Cmd where
  | get
  | note (n : Note)
  | sent (p : Nat) (now : Time)
  | unsent (p : Nat)
  | roll
  | writeRecord (r : Record)
  | entomb (p : Nat)
  | settle (id : Nat)
  | compactOlder
  | sync
  | close
  | read (p : Nat)
  | freeBytes
  | now
  | iterate (l : List Nat)
  | newID
  | openSpool

/-- The type of the answer to a command. -/
@[reducible] def Resp : Cmd → Type
  | .get => Spool
  | .note _ | .sent _ _ | .unsent _ => Unit
  | .roll | .writeRecord _ | .entomb _ | .settle _ | .compactOlder | .sync | .close
  | .openSpool => Except Err Unit
  | .read _ => Except Err Record
  | .freeBytes => Option UInt64
  | .now => Time
  | .iterate _ => List Nat
  | .newID => UUID

/-- Mark an entry as sent, and as first sent when it was not.
SOURCE: spool.go:554-557 and spool.go:570-573 -/
def Spool.markSent (s : Spool) (p : Nat) (now : Time) : Spool :=
  let item := s.heap p
  { s with
    heap := Function.update s.heap p
      { item with sentAt := some now, firstSentAt := some (item.firstSentAt.getD now) } }

/-- Mark an entry as waiting again.
SOURCE: spool.go:595-596 -/
def Spool.markUnsent (s : Spool) (p : Nat) : Spool :=
  { s with
    heap := Function.update s.heap p { s.heap p with sentAt := none, firstSentAt := none } }

/-- What each command does.  A tombstone is written for an entry the spool holds
and whose identifier is indexed; `deleteLocked` asks for nothing else. -/
def step (env : Env) : (c : Cmd) → Spool → Resp c × Spool
  | .get, s => (s, s)
  | .note n, s => ((), n.apply s)
  | .sent p now, s => ((), s.markSent p now)
  | .unsent p, s => ((), s.markUnsent p)
  | .roll, s => rollLocked env s
  | .writeRecord r, s => writeRecord env r s
  | .entomb p, s =>
    if p < s.nextPtr ∧ s.index.lookup (s.heap p).id ≠ none then entomb env p s
    else (.error .nilState, s)
  | .settle id, s => settle env id s
  | .compactOlder, s => compactOlder env s
  | .sync, s => syncActive env s
  | .close, s => closeActive env s
  | .read p, s => readLocked env p s
  | .freeBytes, s => (env.free s.tick, s.next)
  | .now, s => (env.now s.tick, s.next)
  | .iterate l, s => (env.order s.tick l, s.next)
  | .newID, s => (env.newID s.tick, s.next)
  | .openSpool, s => openSpool env s

abbrev SpoolM := Prog Cmd Resp

/-- The program that issues one command. -/
def issue (c : Cmd) : SpoolM (Resp c) := Prog.issue c

def getSpool : SpoolM Spool := issue .get
def note (n : Note) : SpoolM Unit := issue (.note n)

/-! ## Locked functions -/

/-- Roll the active segment over when there is none or it is full.
SOURCE: spool.go:369-373 and spool.go:418-422 -/
def ensureActive : SpoolM (Except Err Unit) := do
  let s ← getSpool
  match s.active with
  | none => issue .roll
  | some a =>
    if (a.size : Int) ≥ s.options.segmentBytes then issue .roll else pure (.ok ())

/-- Write a record to the active segment, rolling it over when it is full.
SOURCE: spool.go:368-392 -/
def writeLocked (r : Record) : SpoolM (Except Err Unit) := do
  match ← ensureActive with
  | .error e => pure (.error e)
  | .ok _ => issue (.writeRecord r)

/-- Rewrite the living records of the older segments into a fresh one once the
dead bytes outgrow their allowance.
SOURCE: spool.go:456-500 -/
def compactLocked : SpoolM (Except Err Unit) := do
  let s ← getSpool
  let quarter := s.options.maxBytes / 4
  let allowance := if quarter > s.options.segmentBytes then quarter else s.options.segmentBytes
  if s.diskLocked - s.live ≤ allowance ∨ s.segments.keys.length < 2 then pure (.ok ())
  else
    match ← issue .roll with
    | .error e => pure (.error e)
    | .ok _ => issue .compactOlder

/-- Forget a record.
SOURCE: spool.go:414-452 -/
def deleteLocked (p : Nat) : SpoolM (Except Err Unit) := do
  let s ← getSpool
  if s.index.lookup (s.heap p).id = none then pure (.ok ())
  else
    match ← ensureActive with
    | .error e => pure (.error e)
    | .ok _ =>
      match ← issue (.entomb p) with
      | .error e => pure (.error e)
      | .ok _ =>
        let s ← getSpool
        match ← issue (.settle (s.heap p).segment) with
        | .error e => pure (.error e)
        | .ok _ => compactLocked

/-- The quota of a priority: what lies above the results of jobs leaves the reserve.
SOURCE: spool.go:306-311 -/
def Options.limit (o : Options) (priority : UInt8) : Int :=
  if priority > priorityJobResult then o.maxBytes - o.criticalReserveBytes else o.maxBytes

/-- The refusal of a priority.
SOURCE: spool.go:307-311 -/
def refusal (priority : UInt8) : Err :=
  if priority > priorityJobResult then .exhausted else .critical

/-- Whether a size leaves the floor of free space, in sixty-four unsigned bits; what
the system does not tell is no obstacle.
SOURCE: spool.go:315 -/
def Options.clears (o : Options) (free : Option UInt64) (size : Nat) : Bool :=
  free.all fun f => !decide (f - UInt64.ofNat size < UInt64.ofInt o.minFreeBytes)

/-- Whether a record of a priority fits: `none` when it does, the refusal otherwise.
SOURCE: spool.go:305-319 -/
def roomLocked (priority : UInt8) (size : Nat) : SpoolM (Option Err) := do
  let s ← getSpool
  if s.live + size > s.options.limit priority then pure (some (refusal priority))
  else
    let free ← issue .freeBytes
    if s.options.clears free size then pure none else pure (some (refusal priority))

/-- Delete the listed inventory records that have not been sent.
SOURCE: spool.go:333-337 -/
def coalesceEach : List Nat → SpoolM Unit
  | [] => pure ()
  | p :: rest => do
    let s ← getSpool
    if (s.heap p).stream = streamInventory ∧ (s.heap p).sentAt = none then
      let _ ← deleteLocked p
      coalesceEach rest
    else coalesceEach rest

/-- Remove the inventory records of a host that have not been sent.
SOURCE: spool.go:332-338 -/
def coalesceInventoryLocked (hostID : Bytes) : SpoolM Unit := do
  let s ← getSpool
  coalesceEach (s.hostList hostID)

/-- Evict the listed metric records until the size fits.
SOURCE: spool.go:352-363 -/
def evictEach (size : Nat) : List Nat → Bool → SpoolM Bool
  | [], evicted => pure evicted
  | p :: rest, evicted => do
    match ← roomLocked priorityMetric size with
    | none => pure evicted
    | some _ =>
      match ← deleteLocked p with
      | .error _ => pure evicted
      | .ok _ =>
        note .dropped
        evictEach size rest true

/-- Remove waiting metric samples, oldest first and of any host, until the size
fits or none is left.
SOURCE: spool.go:342-364 -/
def evictOldestMetricLocked (size : Nat) : SpoolM Bool := do
  let s ← getSpool
  let items ← issue (.iterate s.pointers)
  let candidates := items.filter fun p =>
    decide ((s.heap p).stream = streamMetric) && (s.heap p).sentAt.isNone
  evictEach size
    (candidates.insertionSort fun p q => (s.heap p).createdAt ≤ (s.heap q).createdAt) false

/-- Record the refusal of a durable class as a failure of the spool.
SOURCE: spool.go:287-292 -/
def notKeptLocked (r : Record) (e : Err) : SpoolM (Option Err) := do
  if durable r.stream then note (.flushErr (some e))
  pure (some e)

/-- Delete the listed records past their expiry.
SOURCE: spool.go:679-685 -/
def expireEach (now : Time) : List Nat → SpoolM Unit
  | [] => pure ()
  | p :: rest => do
    let s ← getSpool
    if (s.heap p).expiresAt.any fun t => decide (t < now) then
      match ← deleteLocked p with
      | .error _ => expireEach now rest
      | .ok _ =>
        note .expired
        expireEach now rest
    else expireEach now rest

/-- Cut the records of a host past their expiry.
SOURCE: spool.go:678-686 -/
def expireLocked (hostID : Bytes) (now : Time) : SpoolM Unit := do
  let s ← getSpool
  expireEach now (s.hostList hostID)

/-! ## Exported functions -/

/-- The record `Append` works on: the site and the identifier filled in.
SOURCE: spool.go:242-247 -/
def stampRecord (r : Record) : SpoolM Record := do
  let s ← getSpool
  let r := if r.site = [] then { r with site := s.options.site } else r
  if r.id.toList = List.replicate 16 0 then
    let id ← issue .newID
    pure { r with id := id }
  else pure r

/-- The flush behind the write of a record.
SOURCE: spool.go:270-281 -/
def flushRecord (r : Record) : SpoolM (Option Err) := do
  if durable r.stream then
    match ← issue .sync with
    | .error e =>
      note (.flushErr (some e))
      pure (some e)
    | .ok _ =>
      note (.flushErr none)
      note (.dirty false)
      pure none
  else
    note (.dirty true)
    pure none

/-- The write of an admitted record and its flush.
SOURCE: spool.go:266-281 -/
def keepRecord (r : Record) : SpoolM (Option Err) := do
  match ← writeLocked r with
  | .error e => notKeptLocked r e
  | .ok _ => flushRecord r

/-- Whether a record is admitted, metric samples being evicted for one.
SOURCE: spool.go:256-265 -/
def admitRecord (r : Record) : SpoolM (Option Err) := do
  match ← roomLocked r.priority r.size with
  | none => pure none
  | some e =>
    if r.stream = streamMetric then
      if ← evictOldestMetricLocked r.size then roomLocked r.priority r.size
      else pure (some e)
    else pure (some e)

/-- Supersede what a full report supersedes, then admit and keep the record.
SOURCE: spool.go:251-282 -/
def placeRecord (env : Env) (r : Record) : SpoolM (Option Err) := do
  if r.full env then coalesceInventoryLocked r.hostID
  match ← admitRecord r with
  | some e =>
    note .dropped
    notKeptLocked r e
  | none => keepRecord r

/-- Write a message to the spool by the policy of its class; `none` is no error.
SOURCE: spool.go:238-282 -/
def append (env : Env) (record : Record) : SpoolM (Option Err) := do
  let r ← stampRecord record
  let s ← getSpool
  if s.closed then pure (some .closed)
  else placeRecord env r

/-- Whether an entry was sent less than the timeout ago.
SOURCE: spool.go:515 -/
def Entry.inflight (e : Entry) (now timeout : Int) : Bool :=
  e.sentAt.any fun t => decide (now - t < timeout)

/-- The order records are sent in.
SOURCE: spool.go:532-540 -/
def Entry.before (a b : Entry) : Bool :=
  if a.priority ≠ b.priority then a.priority < b.priority
  else if a.sequence ≠ b.sequence then a.sequence < b.sequence
  else decide (a.createdAt < b.createdAt)

/-- Read the due records back and mark them sent; one the disk no longer gives
back is dropped.
SOURCE: spool.go:544-560 -/
def sendEach (now : Time) : List Nat → List Record → SpoolM (List Record)
  | [], records => pure records
  | p :: rest, records => do
    match ← issue (.read p) with
    | .error _ =>
      note .dropped
      let _ ← deleteLocked p
      sendEach now rest records
    | .ok r =>
      issue (.sent p now)
      sendEach now rest (records ++ [r])

/-- The records of a host due to be sent.
SOURCE: spool.go:504-561 -/
def next (hostID : Bytes) (limit : Int) : SpoolM (Except Err (List Record)) := do
  let s ← getSpool
  if s.closed then pure (.error .closed)
  else
    let now ← issue .now
    expireLocked hostID now
    let s ← getSpool
    let list := s.hostList hostID
    let inflight := (list.filter fun p => (s.heap p).inflight now s.options.ackTimeout).length
    let room := s.options.maxInflightPerHost - inflight
    let room := if limit > 0 ∧ limit < room then limit else room
    if room ≤ 0 then pure (.ok [])
    else
      let due := list.filter fun p => !(s.heap p).inflight now s.options.ackTimeout
      let due := due.insertionSort fun p q => !(s.heap q).before (s.heap p)
      let records ← sendEach now (due.take room.toNat) []
      pure (.ok records)

/-- Note that a record went up outside `next`.
SOURCE: spool.go:566-575 -/
def markSent (id : UUID) : SpoolM Unit := do
  let s ← getSpool
  match s.index.lookup id with
  | none => pure ()
  | some p =>
    let now ← issue .now
    issue (.sent p now)

/-- Mark the listed records as waiting again. -/
def unsendEach : List Nat → SpoolM Unit
  | [] => pure ()
  | p :: rest => do
    issue (.unsent p)
    unsendEach rest

/-- Mark the records of a host as waiting again.
SOURCE: spool.go:591-598 -/
def unsend (hostID : Bytes) : SpoolM Unit := do
  let s ← getSpool
  unsendEach (s.hostList hostID)

/-- Delete the record found by the host, the session and the sequence.
SOURCE: spool.go:602-614 -/
def ack (hostID sessionID : Bytes) (sequence : UInt64) : SpoolM (Bool × Option Err) := do
  let s ← getSpool
  if s.closed then pure (false, some .closed)
  else
    match (s.hostList hostID).find? fun p =>
        decide ((s.heap p).sessionID = sessionID ∧ (s.heap p).sequence = sequence ∧
          (s.heap p).sequence ≠ 0) with
    | none => pure (false, none)
    | some p =>
      match ← deleteLocked p with
      | .error e => pure (true, some e)
      | .ok _ => pure (true, none)

/-- Delete the record named by its identifier, when it is of the host.
SOURCE: spool.go:618-634 -/
def ackID (hostID : Bytes) (id : UUID) : SpoolM (Bool × Option Err) := do
  let s ← getSpool
  if s.closed then pure (false, some .closed)
  else
    match s.index.lookup id with
    | none => pure (false, none)
    | some p =>
      if (s.heap p).hostID ≠ hostID then pure (false, none)
      else
        match ← deleteLocked p with
        | .error e => pure (true, some e)
        | .ok _ => pure (true, none)

/-- Drop the listed records without a sequence that were first delivered longer
than the grace ago and named by no acknowledgement since.
SOURCE: spool.go:647-659 -/
def forgetEach (now grace lastNamed : Int) : List Nat → Nat → SpoolM (Nat × Option Err)
  | [], dropped => pure (dropped, none)
  | p :: rest, dropped => do
    let s ← getSpool
    match (s.heap p).firstSentAt with
    | none => forgetEach now grace lastNamed rest dropped
    | some first =>
      if (s.heap p).sequence ≠ 0 ∨ now - first < grace ∨ lastNamed > first then
        forgetEach now grace lastNamed rest dropped
      else
        match ← deleteLocked p with
        | .error e => pure (dropped, some e)
        | .ok _ => forgetEach now grace lastNamed rest (dropped + 1)

/-- Drop the records of a host no acknowledgement will ever name.
SOURCE: spool.go:638-660 -/
def forgetUnacknowledged (hostID : Bytes) (grace lastNamed : Int) :
    SpoolM (Nat × Option Err) := do
  let s ← getSpool
  if s.closed then pure (0, some .closed)
  else
    let now ← issue .now
    forgetEach now grace lastNamed (s.hostList hostID) 0

/-- Remove a record by its identifier.
SOURCE: spool.go:664-675 -/
def delete (id : UUID) : SpoolM (Option Err) := do
  let s ← getSpool
  if s.closed then pure (some .closed)
  else
    match s.index.lookup id with
    | none => pure none
    | some p =>
      match ← deleteLocked p with
      | .error e => pure (some e)
      | .ok _ => pure none

/-- One tick of the flush loop.
SOURCE: spool.go:226-231 -/
def flush : SpoolM Unit := do
  let s ← getSpool
  if s.dirty ∧ s.active.isSome then
    match ← issue .sync with
    | .error e =>
      note (.flushErr (some e))
      note (.dirty false)
    | .ok _ =>
      note (.flushErr none)
      note (.dirty false)

/-- Flush and close the active segment.
SOURCE: spool.go:200-214 -/
def close : SpoolM (Except Err Unit) := do
  let s ← getSpool
  if s.closed then pure (.ok ())
  else
    let result ← issue .close
    note .closed
    pure result

/-- The calls a relay makes on its spool.  `open` is a start of the process over
the directory as it stands, whether or not the spool was closed before. -/
inductive Op where
  | append (r : Record)
  | next (hostID : Bytes) (limit : Int)
  | markSent (id : UUID)
  | unsend (hostID : Bytes)
  | ack (hostID sessionID : Bytes) (sequence : UInt64)
  | ackID (hostID : Bytes) (id : UUID)
  | forgetUnacknowledged (hostID : Bytes) (grace lastNamed : Int)
  | delete (id : UUID)
  | flush
  | close
  | open

/-- The program of a call, its answer left out. -/
def Op.prog (env : Env) : Op → SpoolM Unit
  | .append r => do let _ ← RelaySpool.append env r
  | .next hostID limit => do let _ ← RelaySpool.next hostID limit
  | .markSent id => RelaySpool.markSent id
  | .unsend hostID => RelaySpool.unsend hostID
  | .ack hostID sessionID sequence => do let _ ← RelaySpool.ack hostID sessionID sequence
  | .ackID hostID id => do let _ ← RelaySpool.ackID hostID id
  | .forgetUnacknowledged hostID grace lastNamed => do
    let _ ← RelaySpool.forgetUnacknowledged hostID grace lastNamed
  | .delete id => do let _ ← RelaySpool.delete id
  | .flush => RelaySpool.flush
  | .close => do let _ ← RelaySpool.close
  | .open => do let _ ← issue .openSpool

/-- A run of calls as one program. -/
def runOps (env : Env) : List Op → SpoolM Unit
  | [] => pure ()
  | op :: ops => do
    op.prog env
    runOps env ops

/-- The spool a program leaves. -/
def after (env : Env) {α : Type} (p : SpoolM α) (s : Spool) : Spool := (p.exec (step env) s).2

def answer (env : Env) {α : Type} (p : SpoolM α) (s : Spool) : α := (p.exec (step env) s).1

/-- A spool opened over an empty directory. -/
def fresh (env : Env) (o : Options) : Spool := (openSpool env (Spool.unopened o ∅ [])).2

def reopened (env : Env) (s : Spool) : Spool := (openSpool env (after env close s)).2

end Flotestro.RelaySpool
