import Mathlib.Data.List.AList
import Flotestro.Library.Decimal
import Flotestro.Library.Space

/-!
# The agent's spool of resource samples

Samples wait on disk until the panel acknowledges them; the last number given within a boot is
kept in a counter file.  A durable step, a file put in place or a counter written, ends as its
`Fate` says: the process may be killed there, before or after the file is in place.
-/

set_option autoImplicit false

namespace Flotestro.MetricSpool

open Library

/-- A character of a boot identifier: a hex digit or a dash. -/
def uuidChar (b : UInt8) : Bool := (48 ≤ b && b ≤ 57) || (97 ≤ b && b ≤ 102) || b == 45

/-- A boot identifier, as the kernel gives it. -/
structure BootID where
  text : Bytes
  ne_nil : text ≠ []
  uuid : text.all uuidChar = true

/-- The name of a spool file: the epoch of its boot and its number.  Both are padded,
so the names sort as the pairs do.  SOURCE: metricspool.go:468-494 -/
structure SampleName where
  epoch : UInt64
  sequence : UInt64
deriving DecidableEq

/-- What is read back of a spooled sample. -/
structure Sample where
  bootID : Bytes
  sequence : UInt64

/-- The directory of the spool: the sample files, none where a file is no sample, and
the counter file. -/
structure Disk where
  samples : AList fun _ : SampleName => Option Sample
  counter : Option Bytes

/-- A file deleted; `removes` tells which deletions succeed.
SOURCE: metricspool.go:450-454 -/
def Disk.remove (removes : SampleName → Bool) (d : Disk) (name : SampleName) : Disk :=
  if removes name then { d with samples := d.samples.erase name } else d

/-! ## The counter file -/

/-- SOURCE: metricspool.go:362-377 -/
inductive CounterState where
  | absent
  | present
  | lost

/-- The text before and after the first `sep`, if there is one. -/
def cut (sep : UInt8) (s : Bytes) : Option (Bytes × Bytes) :=
  if sep ∈ s then some (s.takeWhile (· ≠ sep), (s.dropWhile (· ≠ sep)).tail) else none

/-- A number of 64 bits read from decimal. -/
def parseUint (s : Bytes) : Option UInt64 :=
  (parseDecimal s).bind fun n => if n < 2 ^ 64 then some (UInt64.ofNat n) else none

/-- SOURCE: metricspool.go:381-401 -/
def readCounter (boot : BootID) (d : Disk) : UInt64 × CounterState :=
  match d.counter with
  | none => (0, .absent)
  | some raw =>
    match cut 32 (trimSpace raw) with
    | none => (0, .lost)
    | some (name, value) =>
      if name ≠ boot.text then (0, .absent)
      else
        match parseUint value with
        | none => (0, .lost)
        | some sequence => (sequence, .present)

/-- The line of the counter file.  SOURCE: metricspool.go:404-406 -/
def counterLine (boot : BootID) (sequence : UInt64) : Bytes :=
  boot.text ++ [32] ++ decimal sequence.toNat ++ [10]

/-- SOURCE: metricspool.go:71-76 -/
structure SpooledSample where
  file : SampleName
  bootID : Bytes
deriving DecidableEq

/-- The spool in memory.  SOURCE: metricspool.go:53-68 -/
structure MetricsSpool where
  epoch : UInt64
  sequence : UInt64
  entries : List SpooledSample

section

variable (boot : BootID) (limit : Nat) (removes : SampleName → Bool)

/-- Drop the oldest samples until the spool is within its bound.
SOURCE: metricspool.go:286-297 -/
def evict : List SpooledSample → Disk → List SpooledSample × Disk
  | [], d => ([], d)
  | oldest :: rest, d =>
    if (oldest :: rest).length > limit then evict rest (d.remove removes oldest.file)
    else (oldest :: rest, d)

/-- The entry of a file, or none when the file is discarded: it is no sample, or its
name does not give the identity it carries.  SOURCE: metricspool.go:109-131 -/
def entryOf (file : SampleName) : Option Sample → Option SpooledSample
  | none => none
  | some sample =>
    if file.sequence ≠ 0 ∧ sample.sequence = file.sequence ∧ sample.bootID ≠ [] then
      some ⟨file, sample.bootID⟩
    else none

/-- The order of the entries.  SOURCE: metricspool.go:132-137 -/
def SpooledSample.older (a b : SpooledSample) : Bool :=
  a.file.epoch < b.file.epoch ∨ a.file.epoch = b.file.epoch ∧ a.file.sequence ≤ b.file.sequence

/-- The entries of a directory, oldest first. -/
def Disk.entries (d : Disk) : List SpooledSample :=
  (d.samples.entries.filterMap fun e => entryOf e.1 e.2).insertionSort fun a b => a.older b

/-- The epoch of this boot: the first one its samples have, else one past all others.
SOURCE: metricspool.go:124-129, 139-143 -/
def bootEpoch (entries : List SpooledSample) : UInt64 :=
  match ((entries.filter fun e => e.bootID = boot.text).map fun e => e.file.epoch).min? with
  | some epoch => epoch
  | none => (entries.map fun e => e.file.epoch).foldl max 0 + 1

/-- The last number this boot has used: the counter's, or that of a sample on disk.
SOURCE: metricspool.go:146-152 -/
def lastNumber (recorded : UInt64) (entries : List SpooledSample) : UInt64 :=
  entries.foldl (fun n e => if e.bootID = boot.text ∧ e.file.sequence > n then e.file.sequence else n)
    recorded

def Disk.discard (d : Disk) : Disk :=
  (d.samples.entries.filter fun e => (entryOf e.1 e.2).isNone).foldl
    (fun d e => d.remove removes e.1) d

/-- SOURCE: metricspool.go:99-167 -/
def load (d : Disk) : MetricsSpool × Disk :=
  let (entries, d') := evict limit removes d.entries (d.discard removes)
  (⟨bootEpoch boot d.entries, lastNumber boot (readCounter boot d).1 d.entries, entries⟩, d')

/-- How a durable step ends: it is done, it fails, or the process is killed there; in
the last two cases the file may be in place all the same. -/
inductive Fate where
  | done
  | failed (applied : Bool)
  | killed (applied : Bool)

/-- The file is in place afterwards. -/
def Fate.applied : Fate → Bool
  | .done => true
  | .failed applied => applied
  | .killed applied => applied

/-- SOURCE: metricspool.go:301-335 -/
def Disk.write (fate : Fate) (d : Disk) (name : SampleName) (sample : Sample) : Disk :=
  if fate.applied then { d with samples := d.samples.insert name (some sample) } else d

/-- SOURCE: metricspool.go:404-437 -/
def Disk.writeCounter (fate : Fate) (d : Disk) (sequence : UInt64) : Disk :=
  if fate.applied then { d with counter := some (counterLine boot sequence) } else d

/-- An operation's end: the spool, none when the process is gone, the disk, and the
number of a sample that came out of it, on disk or to the caller. -/
structure Outcome where
  spool : Option MetricsSpool
  disk : Disk
  given : Option UInt64

/-- Number a sample, put it on disk and record the number.  A sample whose file or
counter could not be written is handed to the caller with its number all the same.
SOURCE: metricspool.go:171-191, metrics.go:139-147 -/
def MetricsSpool.enqueue (placed recorded : Fate) (s : MetricsSpool) (d : Disk) : Outcome :=
  let n := s.sequence + 1
  let s := { s with sequence := n }
  let name : SampleName := ⟨s.epoch, n⟩
  let d := d.write placed name ⟨boot.text, n⟩
  match placed with
  | .killed applied => ⟨none, d, if applied then some n else none⟩
  | .failed _ => ⟨some s, d, some n⟩
  | .done =>
    let d := d.writeCounter boot recorded n
    match recorded with
    | .killed _ => ⟨none, d, some n⟩
    | .failed _ => ⟨some s, d, some n⟩
    | .done =>
      let (entries, d) := evict limit removes (s.entries ++ [⟨name, boot.text⟩]) d
      ⟨some { s with entries := entries }, d, some n⟩

/-- What the panel, or a relay on the way, answers. -/
structure MetricsAck where
  bootID : Bytes
  sequence : UInt64
  duplicate : Bool
  highestSequenceHeld : Option UInt64

/-- SOURCE: metricspool.go:264-276 -/
def MetricsSpool.forget (bootID : Bytes) (sequence : UInt64) (s : MetricsSpool) (d : Disk) :
    MetricsSpool × Disk :=
  match s.entries.find? fun e => e.bootID = bootID ∧ e.file.sequence = sequence with
  | none => (s, d)
  | some entry => ({ s with entries := s.entries.erase entry }, d.remove removes entry.file)

/-- The number the acknowledgement moves this boot past, if it does.
SOURCE: metricspool.go:235-248 -/
def MetricsSpool.resumes (ack : MetricsAck) (s : MetricsSpool) : Option UInt64 :=
  match ack.highestSequenceHeld with
  | none => none
  | some held => if ack.duplicate ∧ ack.bootID = boot.text ∧ held > s.sequence then some held else none

/-- SOURCE: metricspool.go:225-262 -/
def MetricsSpool.acknowledge (ack : MetricsAck) (recorded : Fate) (s : MetricsSpool) (d : Disk) :
    Outcome :=
  if ack.bootID = [] ∨ ack.sequence = 0 then ⟨some s, d, none⟩
  else
    match s.resumes boot ack with
    | none =>
      let (s, d) := s.forget removes ack.bootID ack.sequence d
      ⟨some s, d, none⟩
    | some held =>
      let d := d.writeCounter boot recorded held
      match recorded with
      | .killed _ => ⟨none, d, none⟩
      | .failed _ | .done =>
        let (s, d) := { s with sequence := held }.forget removes ack.bootID ack.sequence d
        ⟨some s, d, none⟩

end

/-! ## Runs within a boot -/

/-- What happens to the spool of a host.  `forget` is a sample that could not be read
back for a resend. -/
inductive Event where
  | enqueue (placed recorded : Fate) (removes : SampleName → Bool)
  | acknowledge (ack : MetricsAck) (recorded : Fate) (removes : SampleName → Bool)
  | forget (bootID : Bytes) (sequence : UInt64) (removes : SampleName → Bool)
  | restart (removes : SampleName → Bool)

/-- A host within one boot, with the numbers given to samples so far. -/
structure Host where
  spool : Option MetricsSpool
  disk : Disk
  given : List UInt64

/-- An operation's end as the host's. -/
def Host.after (h : Host) (o : Outcome) : Host := ⟨o.spool, o.disk, h.given ++ o.given.toList⟩

/-- One event; a process that is gone does nothing until it is started again. -/
def Host.step (boot : BootID) (limit : Nat) (h : Host) (event : Event) : Host :=
  match event, h.spool with
  | .enqueue placed recorded removes, some s =>
    h.after (s.enqueue boot limit removes placed recorded h.disk)
  | .acknowledge ack recorded removes, some s =>
    h.after (s.acknowledge boot removes ack recorded h.disk)
  | .forget bootID sequence removes, some s =>
    let (s, d) := s.forget removes bootID sequence h.disk
    ⟨some s, d, h.given⟩
  | .restart removes, _ =>
    let (s, d) := load boot limit removes h.disk
    ⟨some s, d, h.given⟩
  | _, none => h

def Host.run (boot : BootID) (limit : Nat) (h : Host) (events : List Event) : Host :=
  events.foldl (Host.step boot limit) h

end Flotestro.MetricSpool
