import Flotestro.SignIn.Model.Passwords

/-!
# The lock against guesses

A wrong password is on the count or with a call that has not counted it yet.  As long as calls compare
one at a time, under the lock they read, the count bounds the guesses and a lock that is set is seen by
every comparison after it.  Calls that read the row before the first of them is counted compare as many
passwords as there are calls, and one of them with the right password lifts the lock.
-/

set_option autoImplicit false

namespace Flotestro.SignIn

open Library

/-- The call has compared a wrong password that is not on the count. -/
def Call.uncounted (c : Call) : Bool :=
  match c.phase with
  | .hashing => !c.right
  | .counting _ => true
  | .selected _ | .waiting _ | .clearing | .signedIn | .gone => false

namespace World

/-- A call compares under the lock it read, when no wrong password is still to be counted, and counts
its own before the lock it writes has run out. -/
def MayGoOn (s : World) (c : Call) : Prop :=
  match c.phase with
  | .waiting lock => s.row.lockedUntil = lock ∧ s.calls.countP Call.uncounted = 0
  | .counting until_ => s.now < until_
  | .selected _ | .hashing | .clearing | .signedIn | .gone => True

/-- Calls take turns, and none leaves a wrong password uncounted. -/
def InTurn : Event → World → Prop
  | .next n, s => ∀ c ∈ s.calls[n]?, s.MayGoOn c
  | .leave n, s => ∀ c ∈ s.calls[n]?, c.uncounted = false
  | .tick _, _ | .select _, _ => True

structure Inv (s : World) : Prop where
  alone : s.calls.countP Call.uncounted ≤ 1
  counted : s.guesses ≤ s.row.failedAttempts + s.calls.countP Call.uncounted
  capped : s.row.failedAttempts < maxFailedSignIns ∨ s.guesses ≤ s.calls.countP Call.uncounted
  early : ∀ c ∈ s.calls, c.late = false
  lapsed : ∀ c ∈ s.calls, ∀ lock, c.phase = .waiting lock → lockedAt lock s.now = false

variable {s s' : World} {e : Event} {n : Nat} {c : Call}

theorem lockedAt_later {lock : Option Nat} {now later : Nat} (h : lockedAt lock now = false)
    (hle : now ≤ later) : lockedAt lock later = false := by
  cases lock with
  | none => rfl
  | some until_ =>
    simp only [lockedAt, Option.any_some, decide_eq_false_iff_not] at h ⊢
    omega

theorem inv_start (now : Nat) (row : Credential) : Inv (start now row) := by
  constructor <;> simp [start]

section
variable (h : Inv s) (hc : s.calls[n]? = some c)
include h hc

/-- What a step of one call has to show: the counts after it, and that the call is not late. -/
theorem Inv.moved {c' : Call} {r : Credential} {g : Nat}
    (hcounts : ∀ k, k + c.uncounted.toNat = s.calls.countP Call.uncounted + c'.uncounted.toNat →
      k ≤ 1 ∧ g ≤ r.failedAttempts + k ∧ (r.failedAttempts < maxFailedSignIns ∨ g ≤ k))
    (hlate : c'.late = false)
    (hlapsed : ∀ lock, c'.phase = .waiting lock → lockedAt lock s.now = false) :
    Inv { s.put n c' with row := r, guesses := g } := by
  obtain ⟨halone, hcounted, hcapped⟩ := hcounts _ (countP_set_add hc)
  exact ⟨halone, hcounted, hcapped, forall_mem_set h.early hlate, forall_mem_set h.lapsed hlapsed⟩

/-- A step that leaves the row, the guesses and what is to be counted as they were. -/
theorem Inv.stays {phase : Phase}
    (hsame : Call.uncounted { c with phase := phase } = c.uncounted)
    (hlapsed : ∀ lock, phase = .waiting lock → lockedAt lock s.now = false) :
    Inv (s.put n { c with phase := phase }) := by
  refine h.moved hc (fun k hk => ?_) (h.early c (List.mem_of_getElem? hc)) hlapsed
  rw [hsame, Nat.add_right_cancel_iff] at hk
  subst hk
  exact ⟨h.alone, h.counted, h.capped⟩

theorem Inv.count {until_ : Nat} (hopen : s.now < until_) :
    Inv ((s.count until_).put n { c with phase := .gone }) := by
  have ⟨halone, hcounted, hcapped, _, _⟩ := h
  refine h.moved hc (fun k hk => ?_)
    (h.early c (List.mem_of_getElem? hc)) nofun
  simp only [Call.uncounted, Bool.toNat_false] at hk
  by_cases hmax : maxFailedSignIns ≤ s.row.failedAttempts + 1
  · have hlocked : (s.count until_).guesses = 0 := by simp [World.count, hmax, lockedAt, hopen]
    omega
  have hle : (s.count until_).guesses ≤ s.guesses := by
    simp only [World.count, if_neg hmax]
    split <;> omega
  have hrow : (s.count until_).row.failedAttempts = s.row.failedAttempts + 1 := rfl
  omega

theorem inv_next (hgo : s.MayGoOn c) : Inv (s.advance n c) := by
  have ⟨halone, hcounted, hcapped, _, _⟩ := h
  unfold advance
  split
  next lock hphase =>
    refine h.stays hc ?_ fun lock' hlock' => ?_
    · split <;> simp [Call.uncounted, hphase]
    · split at hlock'
      · cases hlock'
      next hopen =>
        cases hlock'
        simpa using hopen
  next lock hphase =>
    simp only [MayGoOn, hphase] at hgo
    refine h.moved hc (r := s.row) (fun k hk => ?_) ?_ nofun
    · cases hright : c.right <;> simp [Call.uncounted, hphase, hright] at hk ⊢ <;> omega
    · rw [locked, hgo.1]
      exact h.lapsed c (List.mem_of_getElem? hc) lock hphase
  next hphase =>
    refine h.stays hc ?_ fun lock hlock => ?_
    · cases hright : c.right <;> simp [Call.uncounted, hphase, hright]
    · cases hright : c.right <;> simp [hright] at hlock
  next until_ hphase =>
    simp only [MayGoOn, hphase] at hgo
    exact h.count hc hgo
  next hphase =>
    refine h.moved hc (fun k hk => ?_) (h.early c (List.mem_of_getElem? hc)) nofun
    simp [Call.uncounted] at hk
    exact ⟨by omega, Nat.zero_le _, .inl (by decide)⟩
  · exact h
  · exact h

end

theorem inv_step (hstep : step e s = some s') (hturn : InTurn e s) (h : Inv s) : Inv s' := by
  cases e with
  | tick seconds =>
    cases hstep
    refine ⟨h.alone, h.counted, h.capped, h.early, fun c hc lock hlock => ?_⟩
    exact lockedAt_later (h.lapsed c hc lock hlock) (Nat.le_add_right _ _)
  | select right =>
    cases hstep
    constructor
    · simpa [Call.uncounted] using h.alone
    · simpa [Call.uncounted] using h.counted
    · simpa [Call.uncounted] using h.capped
    · exact forall_mem_concat h.early rfl
    · exact forall_mem_concat h.lapsed nofun
  | next n =>
    obtain ⟨c, hc, hstep⟩ := Option.bind_eq_some_iff.mp hstep
    obtain ⟨-, rfl⟩ := of_guard hstep
    exact inv_next h hc (hturn c hc)
  | leave n =>
    obtain ⟨c, hc, rfl⟩ := Option.map_eq_some_iff.mp hstep
    exact h.stays hc (hturn c hc).symm nofun

/-- **The lock holds while calls take turns**: at most `MaxFailedSignIns` wrong passwords are compared
before the account is locked, and no comparison begins while it is. -/
theorem guesses_bounded (es : List Event) (now : Nat) (row : Credential) (s : World)
    (hturns : meets step InTurn es (start now row)) (hrun : run step es (start now row) = some s) :
    s.guesses ≤ maxFailedSignIns ∧ ∀ c ∈ s.calls, c.late = false := by
  have h : Inv s := run_inv_of_meets (I := Inv) inv_step
    hturns hrun (inv_start now row)
  have ⟨halone, hcounted, hcapped, _, _⟩ := h
  have hmax : 1 ≤ maxFailedSignIns := by decide
  exact ⟨by omega, h.early⟩

instance decidableInTurn (e : Event) (s : World) : Decidable (InTurn e s) := by
  have (c : Call) : Decidable (s.MayGoOn c) := by
    unfold MayGoOn
    split <;> infer_instance
  cases e <;> unfold InTurn <;> infer_instance

/-- A wrong password, and after it a call that reads the row. -/
def tenth : List Event :=
  [.select false, .next 0, .next 0, .next 0, .next 0, .select true, .next 1]

/-- The tenth wrong password locks the account, and the call after it is refused. -/
theorem guesses_bounded_locked :
    ∃ s, run step tenth (start 0 ⟨9, none⟩) = some s ∧ s.row = ⟨10, some lockWindow⟩ ∧
      s.calls = [⟨false, false, .gone⟩, ⟨true, false, .gone⟩] ∧
      s.guesses ≤ maxFailedSignIns ∧ ∀ c ∈ s.calls, c.late = false := by
  refine ⟨_, rfl, rfl, rfl, ?_⟩
  exact guesses_bounded tenth 0 ⟨9, none⟩ _ (by decide) rfl

set_option maxRecDepth 2000 in
/-- **Parallel guesses pass the lock**: calls that read the row before the first of them counts compare
eleven wrong passwords, and after the account is locked the last one, with the right password, signs in
and lifts the lock.  SOURCE: credentials.go:158-216 -/
theorem parallel_guesses_pass_the_lock : ∃ (es fs gs : List Event) (s t u : World),
      run step es (start 0 ⟨0, none⟩) = some s ∧ s.guesses = 11 ∧
      run step fs s = some t ∧ t.locked = true ∧ t.calls[11]? = some ⟨true, false, .waiting none⟩ ∧
      run step gs t = some u ∧ u.calls[11]? = some ⟨true, true, .signedIn⟩ ∧ u.row = ⟨0, none⟩ := by
  let wrong := [0, 1, 2, 3, 4, 5, 6, 7, 8, 9, 10]
  exact ⟨wrong.map (fun _ => .select false) ++ [.select true, .next 11] ++ wrong.map .next ++
      wrong.flatMap fun n => [.next n, .next n],
    wrong.map .next, [.next 11, .next 11, .next 11], _, _, _, rfl, rfl, rfl, rfl, rfl, rfl, rfl, rfl⟩

end World

end Flotestro.SignIn
