import Flotestro.RelaySpool.Interface.Conditions

/-!
# The accounts of the spool

The spool keeps three running accounts beside its index: the bytes the waiting records take
(`live`), the entries of each host (`byHost`) and the number of living records in each
segment.  `Accounts` says that each agrees with the index.

`KeepsAccounts` is what a run has to meet for the accounts to hold in every state of it.  The
conditions speak of the directory and of what the disk will do, not of what a function returns:
a compaction that has moved one entry out of a segment has to get through with the segment
(`Spool.RoundSafe`), for the counter of the segment is settled by its removal only.
-/

set_option autoImplicit false

namespace Flotestro.RelaySpool

open Library

/-- The bytes the indexed entries take together. -/
def Spool.fill (s : Spool) : Nat := (s.pointers.map fun p => (s.heap p).size).sum

/-- The number of indexed entries that stand in a segment. -/
def Spool.standing (s : Spool) (g : Nat) : Nat :=
  s.pointers.countP fun p => decide ((s.heap p).segment = g)

/-- The list of a host holds exactly the indexed entries of the host, each once. -/
def Spool.Hosted (s : Spool) : Prop :=
  ∀ h, (s.hostList h).Nodup ∧ ∀ p, p ∈ s.hostList h ↔ p ∈ s.pointers ∧ (s.heap p).hostID = h

/-- The running accounts agree with the index: the fill is the sum of the sizes of
the indexed entries, the lists by host hold exactly the indexed entries, and the counter of a
segment is the number of indexed entries that stand in it. -/
structure Accounts (s : Spool) : Prop where
  live : s.live = s.fill
  hosted : s.Hosted
  segment : ∀ g st, s.segments.lookup g = some st → st.live = s.standing g

/-- The record of an entry can be read where the entry says it stands. -/
def Spool.readable (s : Spool) (p : Nat) : Bool :=
  (s.files.lookup (s.heap p).segment).any fun content =>
    (recordAt content (s.heap p).offset (s.heap p).id).isOk

/-- No file operation fails for a number of ticks. -/
def Env.Calm (env : Env) (t n : Nat) : Prop := ∀ i < n, env.fault (t + i) = none

instance (env : Env) (t n : Nat) : Decidable (env.Calm t n) :=
  inferInstanceAs (Decidable (∀ i < n, env.fault (t + i) = none))

/-- The entries of a segment, in the order a round of the compaction comes to them. -/
def Spool.roundOf (env : Env) (s : Spool) (id : Nat) : List Nat :=
  (env.order s.tick s.pointers).filter fun p => decide ((s.heap p).segment = id)

/-- When the first entry of the segment can be copied, all of them can, and the flush
and the removal of the segment behind the copies go through as well. -/
def Spool.RoundSafe (env : Env) (s : Spool) (id : Nat) : Prop :=
  ∀ p ∈ (s.roundOf env id).head?, s.readable p = true → env.Calm (s.tick + 1) 3 →
    (∀ q ∈ s.roundOf env id, s.readable q = true) ∧
      env.Calm (s.tick + 1) (3 * (s.roundOf env id).length + 2)

instance (env : Env) (s : Spool) (id : Nat) : Decidable (s.RoundSafe env id) :=
  inferInstanceAs (Decidable (∀ p ∈ (s.roundOf env id).head?, s.readable p = true →
    env.Calm (s.tick + 1) 3 → (∀ q ∈ s.roundOf env id, s.readable q = true) ∧
      env.Calm (s.tick + 1) (3 * (s.roundOf env id).length + 2)))

/-- Every round of a compaction that is come to is safe. -/
def Spool.CompactsSafely (env : Env) : List Nat → Spool → Prop
  | [], _ => True
  | id :: ids, s => s.RoundSafe env id ∧
    ((compactRound env id s).1.isOk = true → Spool.CompactsSafely env ids (compactRound env id s).2)

instance decidableCompactsSafely (env : Env) :
    (ids : List Nat) → (s : Spool) → Decidable (Spool.CompactsSafely env ids s)
  | [], _ => isTrue trivial
  | id :: ids, s => by
    have := decidableCompactsSafely env ids (compactRound env id s).2
    unfold Spool.CompactsSafely
    infer_instance

def Spool.recordsIn (s : Spool) (g : Nat) : List Record :=
  (s.log g).filterMap fun
    | .put _ x => some x.record
    | .del _ => none

/-- No segment of the directory holds an identifier twice, and no identifier stands
under two hosts. -/
def Spool.CleanDirectory (s : Spool) : Prop :=
  (∀ g ∈ s.files.keys, (s.puts g).Nodup) ∧
    ∀ g ∈ s.files.keys, ∀ g' ∈ s.files.keys, ∀ x ∈ s.recordsIn g, ∀ y ∈ s.recordsIn g',
      x.id = y.id → x.hostID = y.hostID

instance (s : Spool) : Decidable s.CleanDirectory :=
  inferInstanceAs (Decidable ((∀ g ∈ s.files.keys, (s.puts g).Nodup) ∧
    ∀ g ∈ s.files.keys, ∀ g' ∈ s.files.keys, ∀ x ∈ s.recordsIn g, ∀ y ∈ s.recordsIn g',
      x.id = y.id → x.hostID = y.hostID))

/-- The part of a compaction behind its roll. -/
def Cmd.compacts : Cmd → Bool
  | .compactOlder => true
  | _ => false

/-- A record bears an identifier no entry bears, a compaction that moves an entry gets
through with its segment, and a start finds a clean directory. -/
def KeepsAccounts (env : Env) (c : Cmd) (s : Spool) : Prop :=
  (∀ r ∈ c.record, s.Unused r.id) ∧
    (c.compacts = true → Spool.CompactsSafely env s.olderSegments s) ∧
    (c.starts = true → s.CleanDirectory)

instance (env : Env) (c : Cmd) (s : Spool) : Decidable (KeepsAccounts env c s) :=
  inferInstanceAs (Decidable ((∀ r ∈ c.record, s.Unused r.id) ∧
    (c.compacts = true → Spool.CompactsSafely env s.olderSegments s) ∧
    (c.starts = true → s.CleanDirectory)))

end Flotestro.RelaySpool
