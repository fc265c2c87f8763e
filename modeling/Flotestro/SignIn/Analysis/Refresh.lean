import Flotestro.SignIn.Model.Refresh

/-!
# A refresh that ends its own session

An answer leaves the row with a spent token until it is recorded.  As long as a pass asks with the token
of the row while no answer waits, and every answer is recorded, a refusal comes from the provider alone.
A second pass that read the same token is refused for it, and takes the session away.
-/

set_option autoImplicit false

namespace Flotestro.SignIn

open Library List

/-- The pass has an answer that is not on the row. -/
def Pass.waits : Pass → Bool
  | .recording _ _ _ => true
  | .asking _ _ | .revoking _ | .gone => false

namespace Refreshes

variable {s s' : Refreshes} {e : RefreshEvent} {n : Nat} {p : Pass}

/-- A pass asks with the token of the row while no answer waits, and no answer is lost. -/
def InTurn : RefreshEvent → Refreshes → Prop
  | .ask n _, s => (∀ p ∈ s.passes, p.waits = false) ∧
    ∀ p ∈ s.passes[n]?, p = .asking s.session.refreshToken s.session.snapshot.groups
  | .record n fails, s => ∀ p ∈ s.passes[n]?, p.waits = true → fails = false
  | .read, _ | .end_, _ | .logout, _ => True

/-- What a pass brings back: the last answer, or a refusal of a session that has ended. -/
def Holds (provider : Provider) (revoked : Bool) : Pass → Prop
  | .recording token _ claims => token = provider.token ∧ ∀ fresh ∈ claims, fresh.answer = provider.answers
  | .revoking ended => ended = true ∨ revoked = true
  | .asking _ _ | .gone => True

structure Inv (s : Refreshes) : Prop where
  holds : ∀ p ∈ s.passes, Holds s.provider s.session.revoked p
  token : s.session.revoked = false → (∀ p ∈ s.passes, p.waits = false) →
    s.session.refreshToken = s.provider.token
  answer : s.session.snapshot.answer ≤ s.provider.answers
  wronged : s.wronged = false
  setBack : s.setBack = false

theorem Holds.mono {provider provider' : Provider} {revoked revoked' : Bool} (h : Holds provider revoked p)
    (hprovider : p.waits = true → provider = provider') (hrevoked : revoked = true → revoked' = true) :
    Holds provider' revoked' p := by
  cases p with
  | recording => exact hprovider rfl ▸ h
  | revoking => exact h.imp_right hrevoked
  | asking | gone => trivial

/-- A pass that has no answer leaves, or goes on without one. -/
theorem Inv.put (h : Inv s) {p' : Pass} (hp : s.passes[n]? = some p) (hwaits : p.waits = false)
    (hholds : Holds s.provider s.session.revoked p') : Inv (s.put n p') := by
  refine ⟨forall_mem_set h.holds hholds, fun hlive hnone => ?_, h.answer, h.wronged, h.setBack⟩
  refine h.token hlive fun q hq => ?_
  obtain ⟨i, hi⟩ := mem_iff_getElem?.mp hq
  by_cases hin : n = i
  · subst hin
    rw [hp] at hi
    cases hi
    exact hwaits
  · exact hnone q (mem_iff_getElem?.mpr ⟨i, (getElem?_set_ne hin).trans hi⟩)

theorem inv_ask (h : Inv s) {token : Nat} {groups : List String} {reply : Option (Option (List String))}
    (hp : s.passes[n]? = some (.asking token groups)) (hturn : InTurn (.ask n reply) s) :
    Inv (s.ask n token groups reply) := by
  obtain ⟨hnone, hcopy⟩ := hturn
  obtain ⟨rfl, -⟩ := Pass.asking.inj (hcopy _ hp)
  unfold ask
  split
  · exact h.put hp rfl trivial
  next claims =>
    split
    next hrefused =>
      refine h.put hp rfl ?_
      cases hrevoked : s.session.revoked with
      | true => exact .inr rfl
      | false => exact .inl (by simpa [h.token hrevoked hnone] using hrefused)
    · refine ⟨?_, fun _ hwaits => ?_, Nat.le_succ_of_le h.answer, h.wronged, h.setBack⟩
      · refine forall_mem_set (fun q hq => ?_) ⟨rfl, by simp +contextual⟩
        exact (h.holds q hq).mono (by simp [hnone q hq]) id
      · obtain ⟨hlt, -⟩ := List.getElem?_eq_some_iff.mp hp
        cases hwaits _ (mem_set hlt _)

theorem inv_record (h : Inv s) {token : Nat} {groups : List String} {claims : Option Snapshot}
    (hp : s.passes[n]? = some (.recording token groups claims)) :
    Inv ((s.recordAnswer token groups claims).put n .gone) := by
  obtain ⟨rfl, hclaims⟩ := h.holds _ (mem_of_getElem? hp)
  unfold recordAnswer
  split
  next hrevoked =>
    exact ⟨forall_mem_set h.holds trivial, fun hlive _ => by simp [put, hrevoked] at hlive, h.answer,
      h.wronged, h.setBack⟩
  next hlive =>
    rw [Bool.not_eq_true] at hlive
    split
    · exact ⟨forall_mem_set h.holds trivial, fun _ _ => rfl, h.answer, h.wronged, h.setBack⟩
    next fresh =>
      have hlast := hclaims fresh rfl
      have hanswer := h.answer
      refine ⟨forall_mem_set (fun q hq => hlive ▸ h.holds q hq) trivial, fun _ _ => rfl, ?_, h.wronged, ?_⟩
      · split <;> exact Nat.le_of_eq hlast
      · simp [put, h.setBack, hlast, hanswer]

/-- A revoked session has nothing left to lose. -/
theorem Inv.revoked (h : Inv s) : Inv { s with session := { s.session with revoked := true } } :=
  ⟨fun p hp => (h.holds p hp).mono (fun _ => rfl) fun _ => rfl, nofun, h.answer, h.wronged, h.setBack⟩

theorem inv_revoke (h : Inv s) {ended : Bool} (hp : s.passes[n]? = some (.revoking ended)) :
    Inv ((s.revoke ended).put n .gone) := by
  have hended : ended = true ∨ s.session.revoked = true := h.holds _ (mem_of_getElem? hp)
  have hright : (s.wronged || (!s.session.revoked && !ended)) = false := by
    rcases hended with hended | hended <;> simp [h.wronged, hended]
  have hput : Inv (put _ n .gone) := h.revoked.put hp rfl trivial
  exact ⟨hput.holds, hput.token, hput.answer, hright, hput.setBack⟩

theorem inv_step (hstep : step e s = some s') (hturn : InTurn e s) (h : Inv s) : Inv s' := by
  cases e with
  | read =>
    obtain ⟨-, hstep⟩ := of_else hstep nofun
    cases hstep
    refine ⟨forall_mem_concat h.holds trivial, fun hlive hnone => ?_, h.answer, h.wronged, h.setBack⟩
    exact h.token hlive fun p hp => hnone p (mem_append_left _ hp)
  | ask n reply =>
    rw [step] at hstep
    split at hstep
    next token groups hp =>
      cases hstep
      exact inv_ask h hp hturn
    · cases hstep
  | record n fails =>
    rw [step] at hstep
    split at hstep
    next token groups claims hp =>
      obtain rfl := hturn _ hp rfl
      cases hstep
      exact inv_record h hp
    next ended hp =>
      cases hstep
      cases fails with
      | true => exact h.put hp rfl trivial
      | false => exact inv_revoke h hp
    · cases hstep
  | end_ =>
    cases hstep
    exact { h with }
  | logout =>
    cases hstep
    exact h.revoked

theorem inv_start (groups : List String) : Inv (start groups) := by
  constructor <;> simp [start]

/-- **A refresh takes nothing away while passes take turns**: the session is revoked on a refusal only if
the provider had ended it, and its groups are never those of an earlier answer again. -/
theorem refresh_keeps_session (es : List RefreshEvent) (groups : List String) (s : Refreshes)
    (hturns : meets step InTurn es (start groups)) (hrun : run step es (start groups) = some s) :
    s.wronged = false ∧ s.setBack = false := by
  have h : Inv s := run_inv_of_meets (I := Inv) inv_step
    hturns hrun (inv_start groups)
  exact ⟨h.wronged, h.setBack⟩

instance decidableInTurn (e : RefreshEvent) (s : Refreshes) : Decidable (InTurn e s) := by
  cases e <;> unfold InTurn <;> infer_instance

/-- Two refreshes in turn, and a refusal once the provider has ended the session. -/
def inTurn : List RefreshEvent :=
  [.read, .ask 0 (some (some ["ops"])), .record 0 false, .read, .ask 1 (some none), .record 1 false,
    .read, .end_, .ask 2 (some none), .record 2 false]

theorem refresh_keeps_session_inTurn :
    ∃ s, run step inTurn (start ["admins"]) = some s ∧ s.session = ⟨2, ⟨["ops"], 1⟩, true⟩ ∧
      s.wronged = false ∧ s.setBack = false := by
  refine ⟨_, rfl, rfl, ?_⟩
  exact refresh_keeps_session inTurn ["admins"] _ (by decide) rfl

/-- **Two passes spend one token**: the second one is refused and revokes a session the provider has not
ended; so does the next pass after an answer that was not recorded.
SOURCE: session_refresh.go:100-150, sessions.go:250-256 -/
theorem spent_token_revokes :
    ∃ s t, run step [.read, .read, .ask 0 (some none), .record 0 false, .ask 1 (some none), .record 1 false]
        (start []) = some s ∧ s.session.revoked = true ∧ s.provider.ended = false ∧ s.wronged = true ∧
      run step [.read, .ask 0 (some none), .record 0 true, .read, .ask 1 (some none), .record 1 false]
        (start []) = some t ∧ t.session.revoked = true ∧ t.provider.ended = false ∧ t.wronged = true :=
  ⟨_, _, rfl, rfl, rfl, rfl, rfl, rfl, rfl, rfl⟩

end Refreshes

end Flotestro.SignIn
