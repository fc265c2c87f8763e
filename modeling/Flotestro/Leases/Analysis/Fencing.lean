import Flotestro.Leases.Model.Leases

/-!
# The leases fence their holder

The lock of the row ties what a transaction read to what it writes: while it is held, the committed
row stays as the transaction found it (`Invariant`).  So every commit takes the row to one its
transaction's statement allows (`follows_of_effect`), and a fenced transaction commits over the very
row it asserted.
-/

set_option autoImplicit false

namespace Flotestro.Leases

open Library

variable {ι : Type} [DecidableEq ι]

/-- How a row may change: the token never falls, and under one token the lease has one
holder or none. -/
structure Follows (row row' : Row ι) : Prop where
  token : row.token ≤ row'.token
  holder : row'.token = row.token → row'.holder = row.holder ∨ row'.holder = none

omit [DecidableEq ι] in
theorem Follows.refl (row : Row ι) : Follows row row := ⟨Int.le_refl _, fun _ => .inl rfl⟩

omit [DecidableEq ι] in
theorem Follows.trans {a b c : Row ι} (hab : Follows a b) (hbc : Follows b c) : Follows a c := by
  refine ⟨Int.le_trans hab.token hbc.token, fun htoken => ?_⟩
  have hab' := hab.token
  have hbc' := hbc.token
  rcases hbc.holder (by omega) with hc | hc
  · rw [hc]
    exact hab.holder (by omega)
  · exact .inr hc

theorem follows_take {now term : Int} {holder : ι} {row row' : Row ι}
    (h : take now term holder row = some row') : Follows row row' := by
  simp only [take, Option.ite_none_right_eq_some, Option.some.injEq] at h
  obtain ⟨_, _, rfl⟩ := h
  by_cases hsame : row.holder = some holder
  · rw [if_pos hsame]
    exact ⟨Int.le_refl _, fun _ => .inl hsame.symm⟩
  rw [if_neg hsame]
  constructor
  · dsimp only
    omega
  · intro htoken
    dsimp only at htoken
    omega

theorem follows_of_effect {request : Request ι} {now : Int} {row row' : Row ι}
    (h : request.effect now row = some row') : Follows row row' := by
  cases request with
  | take holder term => exact follows_take h
  | renew lease term =>
    obtain ⟨_, rfl⟩ := of_guard h
    exact ⟨Int.le_refl _, fun _ => .inl rfl⟩
  | release lease =>
    obtain ⟨_, rfl⟩ := of_guard h
    exact ⟨Int.le_refl _, fun _ => .inr rfl⟩
  | fenced lease =>
    obtain ⟨_, rfl⟩ := of_guard h
    exact .refl _

namespace Database

/-- **The invariant of the lock**: its transaction is open, and what it will write is what
its statement makes of the committed row. -/
def Invariant (s : Database ι) : Prop :=
  ∀ n row, s.lock = some (n, row) →
    ∃ tx, s.txs n = some tx ∧ tx.request.effect tx.began s.row = some row

theorem Invariant.setTx {s : Database ι} (hs : s.Invariant) {n : Nat} {tx : Option (Tx ι)}
    (hn : ∀ row, s.lock ≠ some (n, row)) : (s.setTx n tx).Invariant := by
  intro m row hlock
  have hne : m ≠ n := by
    rintro rfl
    exact hn row hlock
  obtain ⟨tx', htx, heffect⟩ := hs m row hlock
  exact ⟨tx', by simp only [Database.setTx, if_neg hne, htx], heffect⟩

theorem invariant_of_unlocked {s : Database ι} (h : s.lock = none) : s.Invariant := by
  intro n row hlock
  rw [h] at hlock
  cases hlock

omit [DecidableEq ι] in
theorem unlocked_not_locked (s : Database ι) (n : Nat) (row : Row ι) :
    (s.unlocked n).lock ≠ some (n, row) := by
  intro hlock
  by_cases h : s.locks n = true
  · simp only [unlocked, if_pos h] at hlock
    cases hlock
  · simp only [unlocked, if_neg h] at hlock
    exact h (by simp [locks, hlock])

/-- One event keeps the invariant, and it leaves the row or commits to what a statement
allows. -/
theorem step_spec (e : Event ι) (s s' : Database ι) (h : step e s = some s') (hs : s.Invariant) :
    s'.Invariant ∧ Follows s.row s'.row := by
  cases e with
  | tick d =>
    cases h
    exact ⟨hs, .refl _⟩
  | begin n request =>
    obtain ⟨hnone, rfl⟩ := of_guard h
    refine ⟨hs.setTx fun row hlock => ?_, .refl _⟩
    obtain ⟨tx, htx, _⟩ := hs n row hlock
    rw [hnone] at htx
    cases htx
  | reach n =>
    simp only [step] at h
    split at h
    next tx htx hlock =>
      cases h
      unfold reach
      split
      · exact ⟨invariant_of_unlocked hlock, .refl _⟩
      next row heffect =>
        refine ⟨fun m row' hheld => ?_, .refl _⟩
        obtain ⟨rfl, rfl⟩ := Prod.mk.inj (Option.some.inj hheld)
        exact ⟨tx, htx, heffect⟩
    · cases h
  | skip n =>
    simp only [step] at h
    split at h
    next tx m row htx hlock =>
      obtain ⟨⟨_, hne⟩, heq⟩ := Option.ite_none_right_eq_some.mp h
      cases heq
      refine ⟨hs.setTx fun row' hheld => ?_, .refl _⟩
      rw [hlock] at hheld
      exact hne (Prod.mk.inj (Option.some.inj hheld)).1
    · cases h
  | commit n =>
    simp only [step] at h
    split at h
    next m row hlock =>
      obtain ⟨_, rfl⟩ := of_guard h
      obtain ⟨tx, _, heffect⟩ := hs m row hlock
      exact ⟨invariant_of_unlocked rfl, follows_of_effect heffect⟩
    · cases h
  | abort n =>
    cases h
    have hrow : (s.unlocked n).row = s.row := by
      unfold unlocked
      split <;> rfl
    have hunlocked : (s.unlocked n).Invariant := by
      unfold unlocked
      split
      · exact invariant_of_unlocked rfl
      · exact hs
    refine ⟨hunlocked.setTx fun row => unlocked_not_locked s n row, ?_⟩
    change Follows s.row (s.unlocked n).row
    rw [hrow]
    exact .refl _

theorem Quiet.invariant {s : Database ι} (h : s.Quiet) : s.Invariant :=
  invariant_of_unlocked h.lock

variable {s x y : Database ι} {es fs : List (Event ι)}

theorem invariant_run (h : run step es s = some x) (hs : s.Invariant) : x.Invariant :=
  run_inv (fun ht hi => (step_spec _ _ _ ht hi).1) h hs

theorem follows_run (h : run step es s = some x) (hs : s.Invariant) : Follows s.row x.row :=
  run_rel (r := fun a b => Follows a.row b.row) (fun _ => .refl _) .trans
    (fun ht hi => (step_spec _ _ _ ht hi).1)
    (fun ht hi => (step_spec _ _ _ ht hi).2) h hs

/-- The commit of a fenced transaction finds the row under the token it asserted. -/
theorem token_of_commit (hs : s.Invariant) {n : Nat} {lease : Lease ι} {began : Int}
    (htx : s.txs n = some ⟨.fenced lease, began⟩) (h : step (.commit n) s = some x) :
    s.row.token = lease.token := by
  simp only [step] at h
  split at h
  next m row hlock =>
    obtain ⟨rfl, _⟩ := Option.ite_none_right_eq_some.mp h
    obtain ⟨tx, htx', heffect⟩ := hs m row hlock
    obtain rfl := Option.mem_unique htx htx'
    exact (Option.ite_none_right_eq_some.mp heffect).1.1.2.2
  · cases h

/-- **The leases fence their holder.**  From any state of any run, the token never falls on
the way to a later one and has grown where the lease has a holder it did not have; and a fenced
transaction that commits there asserted no smaller token than the lease had. -/
theorem leases_fence (hquiet : s.Quiet) (hx : run step es s = some x)
    (hy : run step fs x = some y) : x.row.token ≤ y.row.token ∧
      (∀ b, y.row.holder = some b → x.row.holder ≠ some b → x.row.token < y.row.token) ∧
      ∀ n lease began z, y.txs n = some ⟨.fenced lease, began⟩ → step (.commit n) y = some z →
        x.row.token ≤ lease.token := by
  have hinv := invariant_run hx hquiet.invariant
  have hfollows := follows_run hy hinv
  refine ⟨hfollows.token, ?_, ?_⟩
  · intro b hb hne
    rcases Int.lt_or_eq_of_le hfollows.token with hlt | heq
    · exact hlt
    rcases hfollows.holder heq.symm with hsame | hnone
    · exact absurd (hsame.symm.trans hb) hne
    · rw [hb] at hnone
      cases hnone
  · intro n lease began z htx hcommit
    rw [← token_of_commit (invariant_run hy hinv) htx hcommit]
    exact hfollows.token

/-- Nobody has taken the lease yet. -/
def untaken : Database Nat := ⟨100, ⟨none, 0, none⟩, none, fun _ => none⟩

/-- The first instance takes the lease, and the second after its term. -/
def firstTakes : List (Event Nat) := [.begin 0 (.take 1 10), .reach 0, .commit 0]

def secondTakes : List (Event Nat) :=
  [.begin 1 (.fenced ⟨some 1, 1⟩), .tick 11, .begin 2 (.take 2 10), .reach 2, .commit 2, .reach 1,
    .begin 3 (.fenced ⟨some 2, 2⟩), .reach 3]

def taken : Database Nat := (run step firstTakes untaken).getD untaken

def takenOver : Database Nat := (run step secondTakes taken).getD untaken

/-- The transaction of the first instance finds the lease lost, that of the second may
commit. -/
theorem leases_fence_takeover :
    (taken.row.holder = some 1 ∧ takenOver.row.holder = some 2 ∧ takenOver.txs 1 = none) ∧
      taken.row.token < takenOver.row.token ∧ taken.row.token ≤ 2 := by
  have hquiet : untaken.Quiet := ⟨rfl, fun _ => rfl⟩
  have hfirst : run step firstTakes untaken = some taken := rfl
  have hsecond : run step secondTakes taken = some takenOver := rfl
  obtain ⟨_, hgrows, hfence⟩ := leases_fence hquiet hfirst hsecond
  exact ⟨⟨rfl, rfl, rfl⟩, hgrows 2 rfl (by decide), hfence 3 ⟨some 2, 2⟩ 111 _ rfl rfl⟩

end Database

end Flotestro.Leases
