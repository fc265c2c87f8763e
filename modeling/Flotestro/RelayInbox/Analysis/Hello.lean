import Flotestro.RelayInbox.Model.Inbox
import Flotestro.Library.Runs

/-!
# One session for a Hello

The presentations of one signed Hello, with statements that fail, statements whose answer is lost and
gateways that go down.  A Hello counts as done on the branch where its number was fresh, in a second
statement; where that statement is not made, every later lease lets the Hello through and records
nothing.  Where it is made within the lease, the Hello is let through once.
-/

set_option autoImplicit false

namespace Flotestro.RelayInbox

open Library

/-- Where the verification of a presentation is; `verified` is a success. -/
inductive Verification where
  | outside | leasing | noting | verified | refused
  deriving DecidableEq

/-- The row of the Hello and its presentations. -/
structure Hello (ι δ : Type) where
  now : Nat
  row : Option (Row ι)
  phase : δ → Verification

namespace Hello

variable {ι δ : Type} [DecidableEq δ]

/-- The statements of a presentation; one that is `Lost` is carried out and its answer does
not arrive, and one that fails with no effect ends the presentation as a crash does.  What is noted
later about a message that was let through is noted as applied or failed. -/
inductive Event (ι δ : Type) where
  | tick (elapsed : Nat)
  | claim (d : δ) (me : ι)
  | claimLost (d : δ) (me : ι)
  | lease (d : δ) (me : ι)
  | leaseLost (d : δ) (me : ι)
  | note (d : δ)
  | noteLost (d : δ)
  | crash (d : δ)
  | applied (d : δ)
  | failed (d : δ)

def move (s : Hello ι δ) (d : δ) (phase : Verification) : Hello ι δ :=
  { s with phase := fun e => if e = d then phase else s.phase e }

/-- What a presentation does with the answer of its claim.  SOURCE: relay_envelope.go:221-259 -/
def afterClaim : Option Answer → Verification
  | some .fresh => .noting
  | some .retry => .verified
  | some .applied | some .dead | some .busy => .refused
  | none => .leasing

/-- SOURCE: relay_envelope.go:213-261 -/
def step : Event ι δ → Hello ι δ → Option (Hello ι δ)
  | .tick elapsed, s => some { s with now := s.now + elapsed }
  | .claim d me, s =>
    if s.phase d = .outside then
      some ({ s with row := noteRow s.now me s.row }.move d (afterClaim (claimAnswer s.row)))
    else none
  | .claimLost d me, s =>
    if s.phase d = .outside then
      some ({ s with row := noteRow s.now me s.row }.move d .refused)
    else none
  | .lease d me, s =>
    if s.phase d = .leasing then
      match RelayInbox.lease s.now me s.row with
      | some row => some ({ s with row := some row }.move d (afterClaim (some .retry)))
      | none => some (s.move d (afterClaim (some .busy)))
    else none
  | .leaseLost d me, s =>
    if s.phase d = .leasing then
      match RelayInbox.lease s.now me s.row with
      | some row => some ({ s with row := some row }.move d .refused)
      | none => some (s.move d .refused)
    else none
  | .note d, s =>
    if s.phase d = .noting then
      some ({ s with row := s.row.map (noteApplied s.now) }.move d .verified)
    else none
  | .noteLost d, s =>
    if s.phase d = .noting then
      some ({ s with row := s.row.map (noteApplied s.now) }.move d .refused)
    else none
  | .crash d, s => if s.phase d = .verified then none else some (s.move d .refused)
  | .applied d, s =>
    if s.phase d = .verified then some { s with row := s.row.map (noteApplied s.now) } else none
  | .failed d, s => if s.phase d = .verified then some { s with row := s.row.map noteFailure } else none

/-- The claim that was fresh is followed by its record: its answer arrives, the gateway goes on
to the record, and the record is made within the lease. -/
def Recorded : Event ι δ → Hello ι δ → Prop
  | .tick elapsed, s => ∀ row ∈ s.row, row.state = .received →
      ∀ claimed ∈ row.claimedAt, s.now + elapsed ≤ claimed + inboxLease
  | .claimLost _ _, s => s.row ≠ none
  | .crash d, s => s.phase d ≠ .noting
  | _, _ => True

/-- The Hello was not presented yet. -/
def start (now : Nat) : Hello ι δ := ⟨now, none, fun _ => .outside⟩

variable {s s' : Hello ι δ} {e : Event ι δ}

/-- A presentation whose number was fresh, or that was let through. -/
def Active (s : Hello ι δ) (d : δ) : Prop := s.phase d = .noting ∨ s.phase d = .verified

structure Inv (s : Hello ι δ) : Prop where
  unique : ∀ d f, s.Active d → s.Active f → d = f
  empty : s.row = none → ∀ d, ¬s.Active d
  held : ∀ row, s.row = some row → row.state = .received →
    (∃ me claimed, row.claimedBy = some me ∧ row.claimedAt = some claimed ∧
      s.now ≤ claimed + inboxLease) ∧ ∀ d, s.phase d ≠ .verified

omit [DecidableEq δ] in
theorem inv_start (now : Nat) : Inv (start now : Hello ι δ) := by
  refine ⟨fun d f hd => ?_, fun _ d hd => ?_, fun row h => ?_⟩
  · rcases hd with hd | hd <;> cases hd
  · rcases hd with hd | hd <;> cases hd
  · cases h

omit [DecidableEq δ] in
/-- Nobody is granted the lease of a Hello that is not recorded yet. -/
theorem Inv.not_leased (hs : Inv s) (me : ι) : RelayInbox.lease s.now me s.row = none := by
  cases hrow : s.row with
  | none => rfl
  | some row =>
    rw [RelayInbox.lease, if_neg]
    rintro ⟨hstate, hfree⟩
    obtain ⟨⟨_, claimed, hby, hat, hnow⟩, -⟩ := hs.held row hrow hstate
    unfold Row.free at hfree
    rw [hby, hat] at hfree
    have hold : claimed + inboxLease < s.now := by simpa using hfree
    omega

theorem active_move {d f : δ} {p : Verification} (h : (s.move d p).Active f) :
    f = d ∧ (p = .noting ∨ p = .verified) ∨ f ≠ d ∧ s.Active f := by
  unfold Active move at h
  dsimp only at h
  split at h
  next hf => exact .inl ⟨hf, h⟩
  next hf => exact .inr ⟨hf, h⟩

theorem Inv.withdraw (hs : Inv s) (d : δ) {p : Verification} (hp : p ≠ .noting ∧ p ≠ .verified) :
    Inv (s.move d p) := by
  have hactive : ∀ f, (s.move d p).Active f → s.Active f := by
    intro f hf
    rcases active_move hf with ⟨-, h | h⟩ | ⟨-, h⟩
    · exact absurd h hp.1
    · exact absurd h hp.2
    · exact h
  refine ⟨fun f g hf hg => hs.unique f g (hactive f hf) (hactive g hg),
    fun hrow f hf => hs.empty hrow f (hactive f hf), fun row hrow hstate => ?_⟩
  obtain ⟨hheld, hnot⟩ := hs.held row hrow hstate
  refine ⟨hheld, fun f hf => ?_⟩
  by_cases hne : f = d
  · rw [hne] at hf
    simp only [move] at hf
    exact hp.2 hf
  · simp only [move, if_neg hne] at hf
    exact hnot f hf

theorem Inv.record (hs : Inv s) {f : Row ι → Row ι} (hf : ∀ row, (f row).state ≠ .received) {d : δ}
    (hd : s.Active d) (p : Verification) : Inv ({ s with row := s.row.map f }.move d p) := by
  have hactive : ∀ g, (move { s with row := s.row.map f } d p).Active g → s.Active g := by
    intro g hg
    rcases active_move hg with ⟨rfl, -⟩ | ⟨-, h⟩
    · exact hd
    · exact h
  refine ⟨fun g k hg hk => hs.unique g k (hactive g hg) (hactive k hk),
    fun hrow g hg => hs.empty (Option.map_eq_none_iff.mp hrow) g (hactive g hg),
    fun row hrow hstate => ?_⟩
  obtain ⟨row', -, rfl⟩ := Option.map_eq_some_iff.mp hrow
  exact absurd hstate (hf row')

theorem noteApplied_state (now : Nat) (row : Row ι) : (noteApplied now row).state ≠ .received := by
  unfold noteApplied
  split
  next h =>
    rw [h]
    decide
  · intro h
    cases h

omit [DecidableEq δ] in
theorem Inv.renote (hs : Inv s) {d : δ} (hd : s.phase d = .verified) {f : Row ι → Row ι}
    (hf : ∀ row, row.state ≠ .received → (f row).state ≠ .received) :
    Inv { s with row := s.row.map f } := by
  refine ⟨hs.unique, fun hrow => hs.empty (Option.map_eq_none_iff.mp hrow), fun row hrow hstate => ?_⟩
  obtain ⟨row', hrow', rfl⟩ := Option.map_eq_some_iff.mp hrow
  have hnot : row'.state ≠ .received := fun h => (hs.held row' hrow' h).2 d hd
  exact absurd hstate (hf row' hnot)

theorem noteFailure_state {row : Row ι} (h : row.state ≠ .received) :
    (noteFailure row).state ≠ .received := by
  unfold noteFailure
  dsimp only
  split
  · decide
  · exact h

theorem inv_claim (hs : Inv s) (d : δ) (me : ι) :
    Inv ({ s with row := noteRow s.now me s.row }.move d (afterClaim (claimAnswer s.row))) := by
  cases hrow : s.row with
  | none =>
    -- the number is fresh: this presentation holds the row
    refine ⟨fun f g hf hg => ?_, fun h => ?_, fun row h _ => ?_⟩
    · rcases active_move hf with ⟨rfl, -⟩ | ⟨-, h⟩
      · rcases active_move hg with ⟨rfl, -⟩ | ⟨-, h⟩
        · rfl
        · exact absurd h (hs.empty hrow g)
      · exact absurd h (hs.empty hrow f)
    · cases h
    · cases h
      refine ⟨⟨me, s.now, rfl, rfl, Nat.le_add_right _ _⟩, fun f hf => ?_⟩
      by_cases hne : f = d
      · simp [move, hne, claimAnswer, afterClaim] at hf
      · simp only [move, if_neg hne] at hf
        exact hs.empty hrow f (.inr hf)
  | some row =>
    have hsame : ({ s with row := noteRow s.now me (some row) } : Hello ι δ) = s := by
      rw [noteRow, ← hrow]
    rw [hsame]
    apply hs.withdraw d
    rw [claimAnswer]
    cases row.state <;> decide

theorem inv_step (h : step e s = some s') (hrecorded : Recorded e s) (hs : Inv s) : Inv s' := by
  cases e with
  | tick elapsed =>
    cases h
    refine ⟨hs.unique, hs.empty, fun row hrow hstate => ?_⟩
    obtain ⟨⟨me, claimed, hby, hat, -⟩, hnot⟩ := hs.held row hrow hstate
    exact ⟨⟨me, claimed, hby, hat, hrecorded row hrow hstate claimed hat⟩, hnot⟩
  | claim d me =>
    obtain ⟨-, rfl⟩ := of_guard h
    exact inv_claim hs d me
  | claimLost d me =>
    obtain ⟨-, rfl⟩ := of_guard h
    obtain ⟨row, hrow⟩ := Option.ne_none_iff_exists'.mp hrecorded
    have hsame : ({ s with row := noteRow s.now me s.row } : Hello ι δ) = s := by
      rw [hrow, noteRow, ← hrow]
    rw [hsame]
    exact hs.withdraw d (by decide)
  | lease d me | leaseLost d me =>
    rw [step, hs.not_leased me] at h
    obtain ⟨-, rfl⟩ := of_guard h
    exact hs.withdraw d (by decide)
  | note d | noteLost d =>
    obtain ⟨hd, rfl⟩ := of_guard h
    exact hs.record (noteApplied_state s.now) (.inl hd) _
  | crash d =>
    obtain ⟨-, h⟩ := of_else h nofun
    cases h
    exact hs.withdraw d (by decide)
  | applied d =>
    obtain ⟨hd, rfl⟩ := of_guard h
    exact hs.renote hd fun row _ => noteApplied_state s.now row
  | failed d =>
    obtain ⟨hd, rfl⟩ := of_guard h
    exact hs.renote hd fun row => noteFailure_state

/-- **One signed Hello opens at most one session**, in every run in which the claim that was
fresh is followed by its record within the lease: at most one presentation is let through. -/
theorem hello_verified_once {es : List (Event ι δ)} {now : Nat}
    (hes : meets step Recorded es (start now)) (h : run step es (start now) = some s) :
    ∀ d f, s.phase d = .verified → s.phase f = .verified → d = f := by
  intro d f hd hf
  have hs : Inv s := run_inv_of_meets inv_step hes h (inv_start now)
  exact hs.unique d f (.inr hd) (.inr hf)

/-- The Hello is let through, and presented again. -/
def presentedTwice : List (Event Nat Nat) := [.claim 1 7, .note 1, .tick 120000001, .claim 2 7]

def opened : Hello Nat Nat := (run step presentedTwice (start 0)).getD (start 0)

theorem hello_verified_once_opened :
    opened.phase 1 = .verified ∧ ∀ f, opened.phase f = .verified → 1 = f := by
  have hrun : run step presentedTwice (start 0) = some opened := rfl
  refine ⟨rfl, fun f hf => hello_verified_once ?_ hrun 1 f rfl hf⟩
  refine ⟨trivial, fun t ht => ⟨trivial, fun u hu => ⟨?_, fun v hv => ⟨trivial, fun _ _ => trivial⟩⟩⟩⟩
  cases ht
  cases hu
  intro row hrow hstate
  cases hrow
  cases hstate

/-- The gateway goes down before the record, and the Hello is presented twice more. -/
def crashed : List (Event Nat Nat) :=
  [.claim 1 7, .crash 1, .tick 120000001, .claim 2 8, .lease 2 8, .tick 120000001, .claim 3 8,
    .lease 3 8]

theorem hello_verified_twice : (run step crashed (start 0)).map (fun s => (s.phase 2, s.phase 3)) =
      some (.verified, .verified) := by
  decide

end Hello

end Flotestro.RelayInbox
