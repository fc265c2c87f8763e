import Flotestro.RelayInbox.Model.Inbox
import Flotestro.Library.Runs

/-!
# The horizon of a replay

The rows of one session over any run of claims, of what is noted about messages, and of sweeps.  The
clock of the session row moves with its watermark only, so that a session whose numbers come in below
it is swept while it is spoken in.  Where every claim moves the watermark, a message is forgotten only
at a sweep that found the session silent for the whole retention.
-/

set_option autoImplicit false

namespace Flotestro.RelayInbox

open Library

/-- The rows of one session; `lastClaim` is the moment of the last claim of any number. -/
structure Horizon (ι : Type) where
  now : Nat
  session : Option SessionRow
  rows : Int → Option (Row ι)
  lastClaim : Option Nat

namespace Horizon

variable {ι : Type}

/-- The statements; a sweep is the inbox first and then the sessions. -/
inductive Event (ι : Type) where
  | tick (elapsed : Nat)
  | claim (n : Int) (me : ι)
  | lease (n : Int) (me : ι)
  | applied (n : Int)
  | failed (n : Int)
  | sweepInbox
  | sweepSessions

def setRow (s : Horizon ι) (n : Int) (row : Option (Row ι)) : Horizon ι :=
  { s with rows := fun m => if m = n then row else s.rows m }

def step : Event ι → Horizon ι → Option (Horizon ι)
  | .tick elapsed, s => some { s with now := s.now + elapsed }
  | .claim n me, s =>
    some { s.setRow n (noteRow s.now me (s.rows n)) with
      session := takeSequence s.now n s.session
      lastClaim := some s.now }
  | .lease n me, s =>
    match RelayInbox.lease s.now me (s.rows n) with
    | some row => some (s.setRow n (some row))
    | none => some s
  | .applied n, s => some (s.setRow n ((s.rows n).map (noteApplied s.now)))
  | .failed n, s => some (s.setRow n ((s.rows n).map noteFailure))
  | .sweepInbox, s =>
    some { s with rows := fun n => (s.rows n).filter fun row => !sweptRow s.now s.session row }
  | .sweepSessions, s => some { s with session := sweepSession s.now s.session }

/-- A claim is of a number above the watermark of its session. -/
def Rising : Event ι → Horizon ι → Prop
  | .claim n _, s => ∀ row ∈ s.session, row.last < n
  | _, _ => True

instance decidableRising (e : Event ι) (s : Horizon ι) : Decidable (Rising e s) := by
  cases e <;> unfold Rising <;> infer_instance

/-- Nobody has spoken in the session yet. -/
def start (now : Nat) : Horizon ι := ⟨now, none, fun _ => none, none⟩

/-- No claim of the session has been made for the whole retention. -/
def Silent (s : Horizon ι) : Prop := ∀ moment ∈ s.lastClaim, moment + sequenceRetention ≤ s.now

variable {s s' x y : Horizon ι} {e : Event ι}

/-! ## The clock of the session -/

/-- A session row has the moment of the last claim, and a session without a row is silent. -/
structure Inv (s : Horizon ι) : Prop where
  spoken : ∀ row, s.session = some row → s.lastClaim = some row.updatedAt
  silent : s.session = none → s.Silent

variable {session : Option SessionRow} {n : Int}

theorem takeSequence_of_rising (now : Nat) (h : ∀ row ∈ session, row.last < n) :
    takeSequence now n session = some ⟨n, now⟩ := by
  cases session with
  | none => rfl
  | some row => rw [takeSequence, if_pos (h row rfl)]

theorem sweepSession_eq_some {now : Nat} {row : SessionRow}
    (h : sweepSession now session = some row) : session = some row := by
  cases session with
  | none => cases h
  | some old =>
    obtain ⟨-, h⟩ := of_else h nofun
    exact h

theorem sweepSession_eq_none {now : Nat} (h : sweepSession now session = none) :
    session = none ∨ ∃ row, session = some row ∧ row.updatedAt + sequenceRetention < now := by
  cases session with
  | none => exact .inl rfl
  | some old =>
    obtain ⟨hold, h⟩ := of_then h nofun
    exact .inr ⟨old, rfl, hold⟩

theorem inv_step (h : step e s = some s') (hrising : Rising e s) (hs : Inv s) : Inv s' := by
  cases e with
  | tick elapsed =>
    cases h
    exact ⟨hs.spoken, fun hnone moment hm => Nat.le_add_right_of_le (hs.silent hnone moment hm)⟩
  | claim n me =>
    cases h
    have htake := takeSequence_of_rising s.now hrising
    constructor
    · intro row hrow
      obtain rfl := Option.mem_unique htake hrow
      rfl
    · intro hnone
      rw [htake] at hnone
      cases hnone
  | lease n me =>
    rw [step] at h
    split at h
    next row hrow =>
      cases h
      exact ⟨hs.spoken, hs.silent⟩
    · cases h
      exact hs
  | applied n | failed n | sweepInbox =>
    cases h
    exact ⟨hs.spoken, hs.silent⟩
  | sweepSessions =>
    cases h
    refine ⟨fun row hrow => hs.spoken row (sweepSession_eq_some hrow), fun hnone moment hm => ?_⟩
    rcases sweepSession_eq_none hnone with hsession | ⟨row, hsession, hold⟩
    · exact hs.silent hsession moment hm
    · obtain rfl := Option.some.inj ((hs.spoken row hsession).symm.trans hm)
      exact Nat.le_of_lt hold

/-! ## What is forgotten -/

/-- A row goes at a sweep of the inbox only, and its session has no row then. -/
theorem swept_of_forgotten (h : step e s = some s') (hs : s.rows n ≠ none) (hs' : s'.rows n = none) :
    e = .sweepInbox ∧ s.session = none := by
  obtain ⟨row, hrow⟩ := Option.ne_none_iff_exists'.mp hs
  have hset : ∀ (m : Int) (new : Option (Row ι)), (m = n → new ≠ none) → (s.setRow m new).rows n ≠ none := by
    intro m new hnew
    unfold setRow
    dsimp only
    split
    next heq => exact hnew heq.symm
    · exact hs
  cases e with
  | tick elapsed | sweepSessions =>
    cases h
    exact absurd hs' hs
  | claim m me =>
    cases h
    refine absurd hs' (hset m _ fun heq => ?_)
    rw [heq, hrow]
    simp [noteRow]
  | lease m me =>
    rw [step] at h
    split at h
    next new _ =>
      cases h
      exact absurd hs' (hset m _ fun _ => by simp)
    · cases h
      exact absurd hs' hs
  | applied m | failed m =>
    cases h
    exact absurd hs' (hset m _ fun heq => by simp [heq, hrow])
  | sweepInbox =>
    cases h
    refine ⟨rfl, ?_⟩
    dsimp only at hs'
    rw [hrow, Option.filter_eq_none_iff] at hs'
    have hswept := hs' row rfl
    simp only [sweptRow, Bool.not_eq_true', Bool.not_eq_false, Bool.and_eq_true] at hswept
    exact Option.isNone_iff_eq_none.mp hswept.2

/-- A row that goes in a run goes at a sweep that finds the session silent. -/
theorem silent_of_forgotten {fs : List (Event ι)} (hx : Inv x) (hfs : meets step Rising fs x)
    (h : run step fs x = some y) (hxn : x.rows n ≠ none) (hyn : y.rows n = none) :
    ∃ fs₁ fs₂ z, fs = fs₁ ++ .sweepInbox :: fs₂ ∧ run step fs₁ x = some z ∧ z.Silent := by
  induction fs generalizing x with
  | nil =>
    cases h
    exact absurd hyn hxn
  | cons e fs ih =>
    obtain ⟨t, ht, hrest⟩ := run_cons h
    by_cases htn : t.rows n = none
    · obtain ⟨rfl, hsession⟩ := swept_of_forgotten ht hxn htn
      exact ⟨[], fs, x, rfl, rfl, hx.silent hsession⟩
    obtain ⟨fs₁, fs₂, z, rfl, hz, hsilent⟩ :=
      ih (inv_step ht hfs.1 hx) (hfs.2 t ht) hrest htn
    refine ⟨e :: fs₁, fs₂, z, rfl, ?_, hsilent⟩
    rw [run, ht]
    exact hz

/-- **The horizon of a replay**, in every run in which a claim is of a number above the
watermark of its session: a number whose message was applied is answered as fresh only after a sweep
that found no claim of the session made for the whole retention. -/
theorem replay_horizon {es fs : List (Event ι)} {now : Nat} {n : Int}
    (hes : meets step Rising es (start now)) (hx : run step es (start now) = some x)
    (happlied : ∃ row, x.rows n = some row ∧ row.state = .applied)
    (hfs : meets step Rising fs x) (hy : run step fs x = some y)
    (hfresh : claimAnswer (y.rows n) = some .fresh) :
    ∃ fs₁ fs₂ z, fs = fs₁ ++ .sweepInbox :: fs₂ ∧ run step fs₁ x = some z ∧ z.Silent := by
  have hinv : Inv x := run_inv_of_meets inv_step hes hx
    ⟨fun _ h => (nomatch h), fun _ _ h => (nomatch h)⟩
  obtain ⟨row, hrow, -⟩ := happlied
  refine silent_of_forgotten hinv hfs hy (n := n) (by simp [hrow]) ?_
  cases hyn : y.rows n with
  | none => rfl
  | some row' =>
    rw [hyn, claimAnswer] at hfresh
    cases hstate : row'.state <;> rw [hstate] at hfresh <;> cases hfresh

/-- A message is applied and its session is silent for the retention. -/
def spoken : List (Event Nat) := [.claim 10 7, .applied 10, .tick 2592000000001]

def sweeps : List (Event Nat) := [.sweepInbox, .sweepSessions, .sweepInbox]

def afterSilence : Horizon Nat := (run step spoken (start 0)).getD (start 0)

def swept : Horizon Nat := (run step sweeps afterSilence).getD (start 0)

theorem replay_horizon_silence : claimAnswer (swept.rows 10) = some .fresh ∧
    ∃ fs₁ fs₂ z, sweeps = fs₁ ++ .sweepInbox :: fs₂ ∧ run step fs₁ afterSilence = some z ∧
      z.Silent := by
  have hspoken : run step spoken (start 0) = some afterSilence := rfl
  have hsweeps : run step sweeps afterSilence = some swept := rfl
  refine ⟨by decide, replay_horizon (n := 10) (by decide) hspoken ⟨_, rfl, rfl⟩ ?_ hsweeps (by decide)⟩
  exact ⟨trivial, fun _ h => ⟨trivial, fun _ h' => ⟨trivial, fun _ _ => trivial⟩⟩⟩

/-- A lower number is claimed after the retention of the highest, right before the sweeps. -/
def spokenBelow : List (Event Nat) :=
  [.claim 10 7, .applied 10, .tick 2592000000000, .claim 5 7, .tick 1]

/-- The session was spoken in a microsecond ago, and its applied message is fresh again after
two sweeps. -/
theorem forgotten_while_spoken :
    (run step spokenBelow (start 0)).map (fun s => ((s.rows 10).map Row.state, s.lastClaim, s.now)) =
        some (some .applied, some 2592000000000, 2592000000001) ∧
      (run step (spokenBelow ++ sweeps) (start 0)).map (fun s => claimAnswer (s.rows 10)) =
        some (some .fresh) := by
  constructor <;> decide

end Horizon

end Flotestro.RelayInbox
