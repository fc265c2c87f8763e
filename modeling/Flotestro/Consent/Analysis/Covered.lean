import Flotestro.Consent.Model.Approval

/-!
# What a consent covers

Planning replaces the fingerprint and the state in one statement, and the approving statement asks for
the state alone.  A request that read the campaign before that statement approves what it never
compared.  When planning is over before the campaign is read, and no plan is saved behind the back of
the pass that finishes, the record holds what the approver saw.
-/

set_option autoImplicit false

namespace Flotestro.Consent

open Library List

variable {ι δ : Type}

/-- A pass that has read the plans it will finish with. -/
def Pass.hasRead : Pass ι δ → Bool
  | .hasPlans _ _ => true
  | _ => false

/-- A request between its comparison and its transaction. -/
def Request.hasCompared : Request ι δ → Bool
  | .compared _ => true
  | _ => false

namespace World

/-- A plan is saved while the campaign is planning and no pass has read the plans it will
finish with, and planning is finished while no request is between its comparison and its
transaction. -/
def InTurn : Event ι δ → World ι δ → Prop
  | .savePlan _ _, w => w.state = .planning ∧ ∀ p ∈ w.passes, ¬ p.hasRead
  | .finishPlanning _ _, w => w.state = .planning → ∀ r ∈ w.requests, ¬ r.hasCompared
  | _, _ => True

instance decidableInTurn (e : Event ι δ) (w : World ι δ) : Decidable (InTurn e w) := by
  cases e <;> unfold InTurn <;> infer_instance

/-- What holds of the request at an index. -/
def Sound (w : World ι δ) (n : Nat) : Request ι δ → Prop
  | .compared sent => sent = w.fingerprint
  | .approved sent fingerprint =>
    w.lock = some n ∧ w.state = .awaitingApproval ∧ fingerprint = w.fingerprint ∧ fingerprint = sent
  | .attached record => w.lock = some n ∧ w.state = .awaitingApproval ∧ record.Covers
  | .over_ => True

/-- **What every event in turn preserves**. -/
structure Inv (w : World ι δ) : Prop where
  awaiting : w.state = .awaitingApproval → w.plans = w.fingerprint.plans
  passes : ∀ base plans, .hasPlans base plans ∈ w.passes → w.state = .planning → plans = w.plans
  requests : ∀ (n : Nat) (r : Request ι δ), w.requests[n]? = some r → w.Sound n r
  records : ∀ r ∈ w.records, r.Covers

theorem inv_created (state : State) (order : Nat) : (created state order : World ι δ).Inv where
  awaiting _ := rfl
  passes _ _ h := by cases h
  requests _ _ h := by cases h
  records _ h := by cases h

/-! ## Requests an event does not touch -/

variable {w w' : World ι δ} {n : Nat}

/-- The row is as it was for every request, but for one whose transaction ends. -/
theorem Sound.frame {r : Request ι δ} (h : w.Sound n r)
    (hfingerprint : w'.fingerprint = w.fingerprint)
    (hheld : w.lock = some n → w'.lock = w.lock ∧ w'.state = w.state) : w'.Sound n r := by
  cases r with
  | compared sent => exact Eq.trans h hfingerprint.symm
  | approved sent fingerprint =>
    obtain ⟨hlock, hstate, heq, hsent⟩ := h
    obtain ⟨hlock', hstate'⟩ := hheld hlock
    exact ⟨hlock'.trans hlock, hstate'.trans hstate, heq.trans hfingerprint.symm, hsent⟩
  | attached record =>
    obtain ⟨hlock, hstate, hcovers⟩ := h
    obtain ⟨hlock', hstate'⟩ := hheld hlock
    exact ⟨hlock'.trans hlock, hstate'.trans hstate, hcovers⟩
  | over_ => trivial

/-- The rule for an event that moves one request on. -/
theorem requests_set {r : Request ι δ}
    (h : ∀ (m : Nat) (q : Request ι δ), w.requests[m]? = some q → w.Sound m q)
    (hrequests : w'.requests = w.requests.set n r)
    (hothers : ∀ (m : Nat) (q : Request ι δ), m ≠ n → w.Sound m q → w'.Sound m q)
    (hnew : w'.Sound n r) (m : Nat) (q : Request ι δ) (hq : w'.requests[m]? = some q) :
    w'.Sound m q := by
  rw [hrequests, getElem?_set] at hq
  split at hq
  next hmn =>
    subst hmn
    obtain ⟨-, rfl⟩ := of_guard hq
    exact hnew
  next hmn => exact hothers m q (Ne.symm hmn) (h m q hq)

/-- The rule for an event over the passes alone. -/
theorem inv_passes {passes : List (Pass ι δ)} (h : w.Inv)
    (hpasses : ∀ base plans, .hasPlans base plans ∈ passes →
      .hasPlans base plans ∈ w.passes ∨ plans = w.plans) :
    ({ w with passes := passes } : World ι δ).Inv where
  __ := h
  passes base plans hmem hstate := by
    rcases hpasses base plans hmem with hmem | heq
    · exact h.passes base plans hmem hstate
    · exact heq
  requests n r hr := (h.requests n r hr).frame rfl fun _ => ⟨rfl, rfl⟩

theorem inv_plan (h : w.Inv) :
    ({ w with passes := w.passes ++ [.working w.fingerprint] } : World ι δ).Inv := by
  refine inv_passes h fun base plans hmem => ?_
  rcases mem_append.mp hmem with hmem | hmem
  · exact .inl hmem
  · cases mem_singleton.mp hmem

theorem inv_setPass {pass : Pass ι δ} (h : w.Inv) (n : Nat)
    (hpass : ∀ base plans, .hasPlans base plans = pass → plans = w.plans) : (w.setPass n pass).Inv :=
  inv_passes h fun base plans hmem => (mem_or_eq_of_mem_set hmem).imp_right (hpass base plans)

theorem inv_overPass (h : w.Inv) (n : Nat) : (w.setPass n .over_).Inv := by
  refine inv_setPass h n fun base plans heq => ?_
  cases heq

/-- `FinishPlanning` writes the fingerprint of the very plans on record. -/
theorem inv_finishPlanning {base : Fingerprint ι δ} {plans : Plans ι δ} (requiresApproval : Bool)
    (h : w.Inv) (hpass : .hasPlans base plans ∈ w.passes) (hlock : w.lock = none)
    (hturn : w.state = .planning → ∀ r ∈ w.requests, ¬ r.hasCompared) :
    (w.finishPlanning base plans requiresApproval).Inv := by
  unfold finishPlanning
  split
  next hstate =>
    have hplans := h.passes base plans hpass hstate
    refine ⟨fun _ => hplans.symm, fun _ _ _ hplanning => ?_, fun n r hr => ?_, h.records⟩
    · split at hplanning <;> cases hplanning
    · have hsound := h.requests n r hr
      cases r with
      | compared sent => exact absurd rfl (hturn hstate _ (mem_of_getElem? hr))
      | approved sent fingerprint | attached record => cases hlock.symm.trans hsound.1
      | over_ => trivial
  · exact h

theorem inv_savePlan (plans : Plans ι δ) (h : w.Inv) (hstate : w.state = .planning)
    (hpasses : ∀ p ∈ w.passes, ¬ p.hasRead) : ({ w with plans := plans } : World ι δ).Inv where
  awaiting hawaiting := by cases hstate.symm.trans hawaiting
  passes base plans hmem _ := absurd rfl (hpasses _ hmem)
  requests n r hr := (h.requests n r hr).frame rfl fun _ => ⟨rfl, rfl⟩
  records := h.records

theorem inv_compare (h : w.Inv) :
    ({ w with requests := w.requests ++ [.compared w.fingerprint] } : World ι δ).Inv where
  __ := h
  requests n r hr := by
    simp only [getElem?_append] at hr
    split at hr
    · exact (h.requests n r hr).frame rfl fun _ => ⟨rfl, rfl⟩
    · obtain rfl := mem_singleton.mp (mem_of_getElem? hr)
      rfl

theorem inv_overRequest (h : w.Inv) (hstate : w'.state = w.state)
    (hfingerprint : w'.fingerprint = w.fingerprint) (hplans : w'.plans = w.plans)
    (hpasses : w'.passes = w.passes) (hrecords : w'.records = w.records)
    (hrequests : w'.requests = w.requests) (hlock : ∀ m, m ≠ n → w.lock = some m → w'.lock = w.lock) :
    (w'.setRequest n .over_).Inv where
  awaiting hawaiting := hplans.trans ((h.awaiting (hstate.symm.trans hawaiting)).trans
    (congrArg Fingerprint.plans hfingerprint.symm))
  passes base plans hmem hplanning :=
    (h.passes base plans (hpasses ▸ hmem) (hstate.symm.trans hplanning)).trans hplans.symm
  requests := by
    refine requests_set h.requests (n := n) (r := .over_) ?_ (fun m q hm hsound => ?_) trivial
    · exact congrArg (List.set · n _) hrequests
    · exact hsound.frame hfingerprint fun hheld => ⟨hlock m hm hheld, hstate⟩
  records r hr := h.records r (hrecords ▸ hr)

/-- The approving statement returns the fingerprint that was compared. -/
theorem inv_approve {sent : Fingerprint ι δ} (h : w.Inv)
    (hr : w.requests[n]? = some (.compared sent)) (hlock : w.lock = none) :
    (w.approve n sent).Inv := by
  unfold approve
  split
  next hstate =>
    refine ⟨h.awaiting, h.passes, ?_, h.records⟩
    refine requests_set h.requests rfl (fun m q hm hsound => hsound.frame rfl fun hheld => ?_) ?_
    · cases hlock.symm.trans hheld
    · exact ⟨rfl, hstate, rfl, (h.requests n _ hr).symm⟩
  · exact inv_overRequest h rfl rfl rfl rfl rfl rfl fun _ _ _ => rfl

theorem inv_attach {sent fingerprint : Fingerprint ι δ} (h : w.Inv)
    (hr : w.requests[n]? = some (.approved sent fingerprint)) :
    (w.setRequest n (.attached ⟨sent, fingerprint, w.plans⟩)).Inv := by
  obtain ⟨hlock, hstate, hfingerprint, hsent⟩ := h.requests n _ hr
  refine ⟨h.awaiting, h.passes, ?_, h.records⟩
  refine requests_set h.requests rfl (fun m q _ hsound => hsound.frame rfl fun _ => ⟨rfl, rfl⟩) ?_
  refine ⟨hlock, hstate, hsent, ?_⟩
  rw [hfingerprint]
  exact h.awaiting hstate

theorem inv_commit {record : Record ι δ} (h : w.Inv) (hr : w.requests[n]? = some (.attached record)) :
    ({ w with state := .planned, records := w.records ++ [record], lock := none }.setRequest n
      .over_ : World ι δ).Inv := by
  obtain ⟨hlock, hstate, hcovers⟩ := h.requests n _ hr
  refine ⟨fun hawaiting => ?_, fun _ _ _ hplanning => ?_, ?_, forall_mem_concat h.records hcovers⟩
  · cases hawaiting
  · cases hplanning
  · refine requests_set h.requests rfl (fun m q hm hsound => hsound.frame rfl fun hheld => ?_)
      trivial
    exact absurd (Option.mem_unique hheld hlock) hm

theorem inv_leave (h : w.Inv) (hlock : w.lock = none) :
    ({ w with state := .ended } : World ι δ).Inv where
  awaiting hawaiting := by cases hawaiting
  passes _ _ _ hplanning := by cases hplanning
  requests n r hr := (h.requests n r hr).frame rfl fun hheld => by cases hlock.symm.trans hheld
  records := h.records

variable [DecidableEq ι]

theorem inv_step {e : Event ι δ} (hstep : step e w = some w') (hc : InTurn e w) (h : w.Inv) :
    w'.Inv := by
  cases e with
  | plan =>
    obtain ⟨-, rfl⟩ := of_guard hstep
    exact inv_plan h
  | savePlan host digest =>
    cases hstep
    exact inv_savePlan _ h hc.1 hc.2
  | readPlans n =>
    simp only [step] at hstep
    split at hstep
    · cases hstep
      exact inv_setPass h n fun _ _ heq => (Pass.hasPlans.inj heq).2
    · cases hstep
  | finishPlanning n requiresApproval =>
    simp only [step] at hstep
    split at hstep
    next hpass hlock =>
      cases hstep
      exact inv_overPass
        (inv_finishPlanning requiresApproval h (mem_of_getElem? hpass) hlock hc) n
    · cases hstep
  | compare =>
    cases hstep
    exact inv_compare h
  | approve n =>
    simp only [step] at hstep
    split at hstep
    next hr hlock =>
      cases hstep
      exact inv_approve h hr hlock
    · cases hstep
  | attach n =>
    simp only [step] at hstep
    split at hstep
    next hr =>
      cases hstep
      exact inv_attach h hr
    · cases hstep
  | commit n =>
    simp only [step] at hstep
    split at hstep
    next hr =>
      cases hstep
      exact inv_commit h hr
    · cases hstep
  | dropPass n =>
    cases hstep
    exact inv_overPass h n
  | dropRequest n =>
    cases hstep
    unfold unlock
    split
    next hlock =>
      refine inv_overRequest h rfl rfl rfl rfl rfl rfl fun m hm hheld => ?_
      exact absurd (Option.mem_unique hheld hlock) hm
    · exact inv_overRequest h rfl rfl rfl rfl rfl rfl fun _ _ _ => rfl
  | leave =>
    obtain ⟨hlock, rfl⟩ := of_guard hstep
    exact inv_leave h hlock

/-- **In a run whose events are all in turn, every approval that commits records the
fingerprint the approver sent, and the plans that fingerprint was computed from**. -/
theorem consent_covers_what_was_seen {state : State} {order : Nat} {es : List (Event ι δ)}
    {w : World ι δ} (hturn : meets step InTurn es (created state order))
    (hrun : run step es (created state order) = some w) : ∀ r ∈ w.records, r.Covers := by
  have h : w.Inv := run_inv_of_meets (I := Inv)
    inv_step hturn hrun (inv_created state order)
  exact h.records

/-- Two hosts are planned, and the consent is given afterwards. -/
theorem consent_covers_what_was_seen_planned :
    ∃ (es : List (Event Bool Nat)) (w : World Bool Nat) (r : Record Bool Nat),
      meets step InTurn es (created .planning 0) ∧ run step es (created .planning 0) = some w ∧
      w.records = [r] ∧ r.plans true = some 7 ∧ r.plans false = some 8 ∧ r.Covers := by
  let es : List (Event Bool Nat) := [.plan, .savePlan true 7, .savePlan false 8, .readPlans 0,
    .finishPlanning 0 true, .compare, .approve 0, .attach 0, .commit 0]
  have hturn : meets step InTurn es (created .planning 0) := by decide
  exact ⟨es, _, _, hturn, rfl, rfl, rfl, rfl,
    consent_covers_what_was_seen hturn rfl _ mem_cons_self⟩

/-- **An approval of a fingerprint nobody sent**: the campaign was read while it was still
planning, and planning finished before the approving statement.
SOURCE: campaigns.go:1420-1437, store.go:371-383 -/
theorem approves_unseen_fingerprint :
    ∃ (es : List (Event Bool Nat)) (w : World Bool Nat) (r : Record Bool Nat),
      run step es (created .planning 0) = some w ∧ w.records = [r] ∧ r.sent = .request 0 ∧
      r.fingerprint ≠ r.sent :=
  ⟨[.plan, .savePlan true 7, .readPlans 0, .compare, .finishPlanning 0 true, .approve 0, .attach 0,
    .commit 0], _, _, rfl, rfl, rfl, nofun⟩

end World

end Flotestro.Consent
