import Flotestro.Library.Numerals

/-!
# The replay store of the helper

A record in a file for every nonce and for every request under it.  A `Verify` looks at the clock and
then takes the lock of the store; behind it the store sweeps the records that are over, claims the nonce
and reserves the request.  `Complete` writes the record of the request anew.  Every file operation may
fail, a write after any number of bytes, and a power cut may take what was not flushed.

SHA-256 is taken as injective: a record is named by its nonce and the request itself, which is the
request without its capability.
-/

set_option autoImplicit false

namespace Flotestro.HelperCap.Replay

open Library

/-- SOURCE: signer.go:20 -/
def nonceSize : Nat := 32

/-- In seconds.  SOURCE: capability.go:136 -/
def clockSkew : Int := 30

/-- In nanoseconds.  SOURCE: replay.go:345 -/
def sweepInterval : Int := 60 * 10 ^ 9

/-- SOURCE: replay.go:126 -/
def keptResultLimit : Nat := 256 * 2 ^ 10

/-- What `Verify` and the store read of a capability; `maxTTL` is the longest window of the
class of its action, in seconds. -/
structure Capability where
  nonce : Bytes
  notBefore : Int
  expires : Int
  maxTTL : Int

/-- A request without its capability; `order` is all of it but the task. -/
structure Request where
  taskID : Bytes
  order : Nat
  deriving DecidableEq

inductive Name where
  | owner (nonce : Bytes)
  | effect (nonce : Bytes) (request : Request)
  deriving DecidableEq

def newline : UInt8 := 10

/-- SOURCE: replay.go:247-250 -/
def stateReserved : Bytes := ascii "reserved".toList

def stateCompleted : Bytes := ascii "completed".toList

/-- SOURCE: replay.go:198 -/
def ownerRecord (expires : Int) (taskID life : Bytes) : Bytes :=
  formatInt expires ++ newline :: (taskID ++ newline :: (life ++ [newline]))

/-- SOURCE: replay.go:236, 276-277 -/
def effectRecord (expires : Int) (taskID life state body : Bytes) : Bytes :=
  formatInt expires ++ newline ::
    (taskID ++ newline :: (life ++ newline :: (state ++ newline :: (body ++ [newline]))))

/-- The answer that is kept, in hex; nothing for one that is empty or too large.
SOURCE: replay.go:267-270 -/
def keptBody (result : Bytes) : Bytes :=
  if result.length ≤ keptResultLimit then hexEncode result else []

/-- The lines of a record; the loop reads 32 KiB at a time until it is past the bound, and a
read may fail after some bytes.  SOURCE: replay.go:296-315 -/
def readBound : Nat := ((keptResultLimit * 2 + 1024) / (32 * 2 ^ 10) + 1) * (32 * 2 ^ 10)

def readRecord (content : Bytes) (failed : Option Nat) : List Bytes :=
  let content := content.take readBound
  match failed with
  | none => content.splitOn newline
  | some n => (content.take n).splitOn newline

/-- SOURCE: replay.go:370-387 -/
def expiryOf (content : Bytes) : Option Int :=
  match content.take 64 with
  | [] => none
  | buffer => parseInt (trimSpace (buffer.takeWhile (· ≠ newline)))

/-! ## The disk -/

/-- A file, with what a power cut may bring back instead of a content that is not flushed. -/
structure File where
  content : Bytes
  previous : Option Bytes
  synced : Bool
  entrySynced : Bool

/-- How the creation of a record ended: no file, a write that failed after some bytes, a file
or a directory that was not flushed, or nothing wrong. -/
inductive Creation where
  | failed
  | wrote (n : Nat)
  | unsynced
  | undurable
  | done
  deriving DecidableEq

/-- How the rewriting of a record ended; from `wrote` on the file was truncated. -/
inductive Rewriting where
  | failed
  | wrote (n : Nat)
  | unsynced
  | done

/-- What a power cut takes of what was not flushed: entries of the directory, contents (for the
previous one or a part), and removals. -/
structure Loss where
  entry : Name → Bool
  previous : Name → Bool
  length : Name → Nat
  removal : Name → Bool

/-! ## The store -/

inductive Refusal where
  | invalidNonce | replay | performed | inFlight | failed
  deriving DecidableEq

inductive Reply where
  | fresh
  | kept (result : Bytes)
  | refused (why : Refusal)
  deriving DecidableEq

/-- The store and the calls of `Verify` before its lock; `now` is in nanoseconds.  The last two
fields are the history: the reservations that were fresh, and the results that were recorded. -/
structure Store where
  files : Name → Option File
  removed : Name → Option Bytes
  life : Bytes
  sweptAt : Option Int
  now : Int
  waiting : Nat → Option (Capability × Request × Bool)
  fresh : List (Bytes × Request)
  recorded : List ((Bytes × Request) × Bytes)

/-- What happens to the files while a call has the lock: the files a sweep could not read or
unlink, the creation of the two records, and reads that fail. -/
structure Fate where
  skips : Name → Bool
  owner : Creation
  ownerRead : Option Nat
  effect : Creation
  effectRead : Option Nat

namespace Store

variable (s : Store)

def unix : Int := s.now / 10 ^ 9

def setFile (name : Name) (file : File) : Store :=
  { s with files := fun other => if other = name then some file else s.files other }

/-- The directory is flushed: its entries stay, and so do its removals. -/
def syncDir : Store :=
  { s with
    files := fun name => (s.files name).map fun file => { file with entrySynced := true }
    removed := fun _ => none }

/-- SOURCE: replay.go:186-207, 217-244, 317-330 -/
def create (name : Name) (content : Bytes) : Creation → Store × Bool
  | .failed => (s, false)
  | .wrote n => (s.setFile name ⟨content.take n, none, false, false⟩, false)
  | .unsynced => (s.setFile name ⟨content, none, false, false⟩, false)
  | .undurable => (s.setFile name ⟨content, none, true, false⟩, false)
  | .done => ((s.setFile name ⟨content, none, true, false⟩).syncDir, true)

/-- The sweep takes the file.  SOURCE: replay.go:356-366 -/
def expired (skips : Name → Bool) (name : Name) (file : File) : Bool :=
  !skips name &&
    match expiryOf file.content with
    | some expires => wrap64 (expires + clockSkew) < s.unix
    | none => false

/-- Every record that is over is unlinked. -/
def sweepAll (skips : Name → Bool) : Store :=
  { s with
    sweptAt := some s.now
    files := fun name => (s.files name).filter fun file => !s.expired skips name file
    removed := fun name =>
      match s.files name with
      | some file => if s.expired skips name file then some file.content else s.removed name
      | none => s.removed name }

/-- SOURCE: replay.go:347-368 -/
def sweepLocked (skips : Name → Bool) : Store :=
  match s.sweptAt with
  | some swept => if s.now - swept < sweepInterval then s else s.sweepAll skips
  | none => s.sweepAll skips

/-- SOURCE: replay.go:182-207 -/
def claimOwner (c : Capability) (taskID : Bytes) (fate : Fate) : Store × Option Refusal :=
  match s.files (.owner c.nonce) with
  | some file =>
    let lines := readRecord file.content fate.ownerRead
    if fate.owner = .failed then (s, some .failed)
    else if 3 ≤ lines.length ∧ lines[1]? = some taskID ∧ lines[2]? = some s.life ∧ taskID ≠ [] then
      (s, none)
    else (s, some .replay)
  | none =>
    let created := s.create (.owner c.nonce) (ownerRecord c.expires taskID s.life) fate.owner
    (created.1, if created.2 then none else some .failed)

/-- The answer of a request that ran, from the line of its body. -/
def keptAnswer (body : Bytes) : Reply :=
  if body = [] then .refused .performed
  else
    match hexDecode body with
    | some result => .kept result
    | none => .refused .performed

/-- What a record of the request says about it.  SOURCE: replay.go:216-232 -/
def answerOf (lines : List Bytes) : Reply :=
  if lines.length < 4 then .refused .replay
  else if lines[3]? = some stateCompleted then keptAnswer (lines.getD 4 [])
  else .refused .inFlight

/-- SOURCE: replay.go:210-244 -/
def claimEffect (c : Capability) (r : Request) (fate : Fate) : Store × Reply :=
  match s.files (.effect c.nonce r) with
  | some file =>
    if fate.effect = .failed then (s, .refused .failed)
    else (s, answerOf (readRecord file.content fate.effectRead))
  | none =>
    let record := effectRecord c.expires r.taskID s.life stateReserved []
    let created := s.create (.effect c.nonce r) record fate.effect
    (created.1, if created.2 then .fresh else .refused .failed)

/-- The sweep and the claim of the nonce, which every reservation begins with. -/
def claim (c : Capability) (r : Request) (fate : Fate) : Store × Option Refusal :=
  (s.sweepLocked fate.skips).claimOwner c r.taskID fate

/-- `Reserve` of a request that mutates, `ReserveRead` of another one.
SOURCE: replay.go:142-178 -/
def reserve (c : Capability) (r : Request) (mutating : Bool) (fate : Fate) : Store × Reply :=
  if c.nonce.length ≠ nonceSize then (s, .refused .invalidNonce)
  else
    match s.claim c r fate with
    | (t, some why) => (t, .refused why)
    | (t, none) => if mutating then t.claimEffect c r fate else (t, .fresh)

/-- SOURCE: replay.go:256-280 -/
def complete (c : Capability) (r : Request) (result : Bytes) (rewriting : Rewriting) : Store :=
  match s.files (.effect c.nonce r) with
  -- the record of a nonce of another length is never there
  | none => s
  | some file =>
    let record := effectRecord c.expires r.taskID s.life stateCompleted (keptBody result)
    match rewriting with
    | .failed => s
    | .wrote n =>
      s.setFile (.effect c.nonce r) ⟨record.take n, some file.content, false, file.entrySynced⟩
    | .unsynced => s.setFile (.effect c.nonce r) ⟨record, some file.content, false, file.entrySynced⟩
    | .done =>
      { s.setFile (.effect c.nonce r) ⟨record, none, true, file.entrySynced⟩ with
        recorded := ((c.nonce, r), result) :: s.recorded }

def resultOf (nonce : Bytes) (r : Request) : Option Bytes := s.recorded.lookup (nonce, r)

/-- A file whose removal was not flushed comes back. -/
def broughtBack (loss : Loss) (name : Name) : Option File :=
  if loss.removal name then (s.removed name).map fun content => ⟨content, none, true, true⟩ else none

def afterCut (loss : Loss) (name : Name) : Option File :=
  match s.files name with
  | none => s.broughtBack loss name
  | some file =>
    if !file.entrySynced && loss.entry name then s.broughtBack loss name
    else if file.synced then some { file with entrySynced := true }
    else
      let whole := file.content.take (loss.length name)
      some ⟨if loss.previous name then file.previous.getD whole else whole, none, true, true⟩

/-- The process is gone, and a new one opens the directory with a life of its own and sweeps.
SOURCE: replay.go:39-64, 334-340 -/
def restart (life : Bytes) (loss : Loss) (skips : Name → Bool) : Store :=
  let opened : Store :=
    { s with
      files := s.afterCut loss
      removed := fun _ => none
      life := hexEncode life
      sweptAt := none
      waiting := fun _ => none }
  opened.sweepLocked skips

end Store

/-- The clock, the calls with what the disk does in them, and restarts.  `check` is a `Verify`
whose checks before the store pass. -/
inductive Event where
  | tick (nanoseconds : Nat)
  | check (v : Nat) (c : Capability) (r : Request) (mutating : Bool)
  | reserve (v : Nat) (fate : Fate)
  | complete (c : Capability) (r : Request) (result : Bytes) (rewriting : Rewriting)
  | sweep (skips : Name → Bool)
  | restart (life : Bytes) (loss : Loss) (skips : Name → Bool)

namespace Store

/-- The window of the capability, in the arithmetic of 64 bits.  SOURCE: verifier.go:94-112 -/
def inWindow (s : Store) (c : Capability) : Bool :=
  !(s.unix < wrap64 (c.notBefore - clockSkew) || s.unix > c.expires) &&
    !(wrap64 (c.expires - c.notBefore) > c.maxTTL + clockSkew)

/-- SOURCE: verifier.go:69-179 -/
def step : Event → Store → Option Store
  | .tick nanoseconds, s => some { s with now := s.now + nanoseconds }
  | .check v c r mutating, s =>
    if s.inWindow c then
      some { s with waiting := fun u => if u = v then some (c, r, mutating) else s.waiting u }
    else none
  | .reserve v fate, s =>
    match s.waiting v with
    | none => none
    | some (c, r, mutating) =>
      let reserved := s.reserve c r mutating fate
      some { reserved.1 with
        waiting := fun u => if u = v then none else s.waiting u
        fresh := if mutating ∧ reserved.2 = .fresh then (c.nonce, r) :: s.fresh else s.fresh }
  | .complete c r result rewriting, s => some (s.complete c r result rewriting)
  | .sweep skips, s => some ({ s with sweptAt := none }.sweepLocked skips)
  | .restart life loss skips, s => some (s.restart life loss skips)

def start (life : Bytes) (now : Int) : Store :=
  ⟨fun _ => none, fun _ => none, hexEncode life, none, now, fun _ => none, [], []⟩

end Store

end Flotestro.HelperCap.Replay
