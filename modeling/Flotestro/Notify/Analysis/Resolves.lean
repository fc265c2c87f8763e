import Flotestro.Notify.Model.Rounds
import Flotestro.Library.Runs

/-!
# A resolve and its fire

The rows of one alert on one channel are claimed, sent and kept back on their own, and a resolve asks
only whether its fire is kept back already.  A fire that waits for another attempt is not: the resolve
is sent, and a silence that starts then keeps the fire back.  Where a resolve is sent only after its
fire was delivered or given up, the fire is never kept back later.
-/

set_option autoImplicit false

namespace Flotestro.Notify

open Library List

/-- The event is a fire of the alert that the resolve ends. -/
def Trail.FireOf (trail : Trail) (resolve fire : Nat) : Prop :=
  (trail.message resolve).subject = .alertResolved ∧ (trail.message fire).subject = .alertFired ∧
    (trail.message resolve).aggregateID = (trail.message fire).aggregateID

instance decidableFireOf (trail : Trail) (resolve fire : Nat) : Decidable (trail.FireOf resolve fire) :=
  inferInstanceAs (Decidable (_ ∧ _ ∧ _))

theorem Trail.FireOf.lt {trail : Trail} {resolve fire : Nat} (h : trail.FireOf resolve fire) :
    fire < resolve := trail.fire_first resolve fire h.1 h.2.1 h.2.2

/-- An attempt ended the row. -/
def Delivery.ended (d : Delivery) : Prop := d.state = .delivered ∨ d.state = .deadLetter

/-- The channel has a row of the event, and an attempt ended it. -/
structure Told (rows : List Delivery) (channelID eventID : Nat) : Prop where
  has : ∃ d ∈ rows, d.channelID = channelID ∧ d.eventID = eventID
  ended : ∀ d ∈ rows, d.channelID = channelID → d.eventID = eventID → d.ended

section

variable {rows : List Delivery} {channelID eventID : Nat}

theorem told_iff : Told rows channelID eventID ↔
    (∃ d ∈ rows, d.channelID = channelID ∧ d.eventID = eventID) ∧
      ∀ d ∈ rows, d.channelID = channelID → d.eventID = eventID → d.ended :=
  ⟨fun h => ⟨h.has, h.ended⟩, fun h => ⟨h.1, h.2⟩⟩

instance decidableEnded (d : Delivery) : Decidable d.ended := inferInstanceAs (Decidable (_ ∨ _))

instance decidableTold : Decidable (Told rows channelID eventID) := decidable_of_iff' _ told_iff

theorem Told.updateWhere {p : Delivery → Bool} {f : Delivery → Delivery}
    (h : Told rows channelID eventID) (hp : ∀ d, p d = true → ¬d.ended)
    (hsame : ∀ d, (f d).channelID = d.channelID ∧ (f d).eventID = d.eventID) :
    Told (updateWhere p f rows) channelID eventID := by
  obtain ⟨⟨d, hd, hdc, hde⟩, hended⟩ := h
  constructor
  · refine ⟨_, mem_map_of_mem hd, ?_⟩
    split
    · exact ⟨(hsame d).1.trans hdc, (hsame d).2.trans hde⟩
    · exact ⟨hdc, hde⟩
  · intro d' hd' hc he
    obtain ⟨d, hd, rfl⟩ := mem_map.mp hd'
    by_cases hpd : p d = true
    · rw [if_pos hpd] at hc he
      exact absurd (hended d hd ((hsame d).1.symm.trans hc) ((hsame d).2.symm.trans he)) (hp d hpd)
    · rw [if_neg hpd] at hc he ⊢
      exact hended d hd hc he

theorem Told.enqueueRow (h : Told rows channelID eventID) (now : Nat) (row : Delivery) :
    Told (enqueueRow now rows row) channelID eventID := by
  unfold Notify.enqueueRow
  split
  · exact h
  next hnew =>
    obtain ⟨d, hd, hdc, hde⟩ := h.has
    refine ⟨⟨d, mem_append_left _ hd, hdc, hde⟩, fun d' hd' hc he => ?_⟩
    rcases mem_append.mp hd' with hold | hnew'
    · exact h.ended d' hold hc he
    · -- the row would name the event and the channel of one that exists
      obtain rfl := mem_singleton.mp hnew'
      refine absurd (any_eq_true.mpr ⟨d, hd, ?_⟩) hnew
      simp only [Delivery.sameKey, Bool.and_eq_true, decide_eq_true_eq]
      exact ⟨he.trans hde.symm, hc.trans hdc.symm⟩

theorem Told.enqueue (h : Told rows channelID eventID) (now : Nat) (batch : List Delivery) :
    Told (enqueue now rows batch) channelID eventID := by
  induction batch generalizing rows with
  | nil => exact h
  | cons row batch ih => exact ih (h.enqueueRow now row)

theorem not_ended_of_leased {d : Delivery} (h : d.state = .leased) : ¬d.ended := by
  rintro (hd | hd) <;> rw [h] at hd <;> cases hd

theorem not_ended_of_heldBy {owner : Nat} {row d : Delivery} (h : row.heldBy owner d = true) : ¬d.ended := by
  simp only [Delivery.heldBy, Bool.and_eq_true, decide_eq_true_eq] at h
  exact not_ended_of_leased h.2

theorem Told.reclaimStale (h : Told rows channelID eventID) (now : Nat) :
    Told (reclaimStale now rows) channelID eventID := by
  refine h.updateWhere (fun d hd => ?_) fun _ => ⟨rfl, rfl⟩
  simp only [Delivery.stale, Bool.and_eq_true, decide_eq_true_eq] at hd
  exact not_ended_of_leased hd.1

theorem Told.claim (h : Told rows channelID eventID) (now owner lease : Nat) (picked : List Delivery) :
    Told (claim now owner lease picked rows) channelID eventID := by
  refine h.updateWhere (fun d hd hended => ?_) fun _ => ⟨rfl, rfl⟩
  simp only [Delivery.due, Bool.and_eq_true, Bool.or_eq_true, decide_eq_true_eq] at hd
  rcases hd.1.1 with hstate | hstate <;> rcases hended with ho | ho <;> rw [hstate] at ho <;> cases ho

theorem settled_same (now : Nat) (d : Delivery) (outcome : Outcome) :
    (d.settled now outcome).channelID = d.channelID ∧ (d.settled now outcome).eventID = d.eventID := by
  cases outcome <;> exact ⟨rfl, rfl⟩

end

namespace World

variable {trail : Trail} {options : Options} {s s' : World} {e : Event}

/-! ## What an event does to the rows and to what was sent -/

/-- Nothing that was settled is taken back, and what is sent is sent by the worker at it. -/
structure Kept (e : Event) (s s' : World) : Prop where
  told : ∀ channelID eventID, Told s.rows channelID eventID → Told s'.rows channelID eventID
  sent : s'.sent = s.sent ∨ ∃ w row, e = .send w ∧ (s.workers w).phase = .cleared row ∧
    s'.sent = (row.channelID, row.eventID) :: s.sent

theorem Kept.same (hrows : s'.rows = s.rows) (hsent : s'.sent = s.sent) : Kept e s s' :=
  ⟨fun _ _ h => hrows ▸ h, .inl hsent⟩

theorem Kept.rows (h : ∀ channelID eventID, Told s.rows channelID eventID → Told s'.rows channelID eventID)
    (hsent : s'.sent = s.sent) : Kept e s s' := ⟨h, .inl hsent⟩

/-- The rule for an event of a worker about the row it holds. -/
theorem Kept.held {f : Delivery → Delivery} (w : Nat) (row : Delivery)
    (hrows : s'.rows = updateWhere (row.heldBy w) f s.rows)
    (hsame : ∀ d, (f d).channelID = d.channelID ∧ (f d).eventID = d.eventID) (hsent : s'.sent = s.sent) : Kept e s s' :=
  .rows (fun _ _ h => hrows ▸ h.updateWhere (fun _ => not_ended_of_heldBy) hsame) hsent

theorem step_kept (h : step trail options e s = some s') : Kept e s s' := by
  cases e with
  | tick elapsed | policies policies | suppression r eventID | giveUp r | abandon w =>
    cases h
    exact Kept.same rfl rfl
  | collect r channelID =>
    rw [step] at h
    split at h
    · cases h
    · cases h
      exact Kept.same rfl rfl
  | enqueue r =>
    cases h
    exact Kept.rows (fun _ _ ht => ht.enqueue s.now (s.routers r).rows) rfl
  | reclaimStale =>
    cases h
    exact Kept.rows (fun _ _ ht => ht.reclaimStale s.now) rfl
  | claim w picked =>
    obtain ⟨-, rfl⟩ := of_guard h
    exact Kept.rows (fun _ _ ht => ht.claim s.now w options.lease picked) rfl
  | renew w =>
    rw [step] at h
    split at h
    next row rest _ =>
      split at h
      · cases h
        exact Kept.held w row rfl (fun _ => ⟨rfl, rfl⟩) rfl
      · cases h
        exact Kept.same rfl rfl
    · cases h
  | recheck w | recheckFire w =>
    rw [step] at h
    split at h
    · split at h <;> cases h <;> exact Kept.same rfl rfl
    · cases h
  | keep w =>
    rw [step] at h
    split at h
    next row verdict _ =>
      cases h
      exact Kept.held w row rfl (fun _ => ⟨rfl, rfl⟩) rfl
    · cases h
  | refuse w result | answer w result =>
    rw [step] at h
    split at h
    · cases h
      exact Kept.same rfl rfl
    · cases h
  | send w =>
    rw [step] at h
    split at h
    next row hphase =>
      cases h
      exact ⟨fun _ _ ht => ht, .inr ⟨w, row, rfl, hphase, rfl⟩⟩
    · cases h
  | renewWhile w =>
    rw [step] at h
    split at h
    next row _ =>
      cases h
      exact Kept.held w row rfl (fun _ => ⟨rfl, rfl⟩) rfl
    · cases h
  | lost w =>
    rw [step] at h
    split at h
    · split at h
      · cases h
      · cases h
        exact Kept.same rfl rfl
    · cases h
  | settle w =>
    rw [step] at h
    split at h
    next row outcome _ =>
      cases h
      exact Kept.held w row rfl (settled_same s.now · outcome) rfl
    · cases h

/-! ## No resolve without its fire -/

/-- A row about to be sent stands after the fires of its alert: where it is a resolve, they
were delivered to the channel or given up. -/
def afterFire (trail : Trail) (rows : List Delivery) : Phase → Prop
  | .cleared row => ∀ fire < row.eventID, trail.FireOf row.eventID fire → Told rows row.channelID fire
  | _ => True

/-- A worker sends a resolve after its fires. -/
def AfterFire (trail : Trail) : Event → World → Prop
  | .send w, s => afterFire trail s.rows (s.workers w).phase
  | _, _ => True

/-- **What the check of a resolve gives.**  Where every fire of its alert has a row on the channel and
these are delivered, given up or kept back, a resolve that the check clears stands after its fires. -/
theorem afterFire_of_recheckFire {w : Nat} {row : Delivery}
    (hphase : (s.workers w).phase = .uncovered row)
    (hsettled : ∀ fire, trail.FireOf row.eventID fire →
      (∃ d ∈ s.rows, d.channelID = row.channelID ∧ d.eventID = fire) ∧
        ∀ d ∈ s.rows, d.channelID = row.channelID → d.eventID = fire → d.ended ∨ d.state = .suppressed)
    (h : step trail options (.recheckFire w) s = some s') :
    afterFire trail s'.rows (s'.workers w).phase := by
  simp only [step, hphase] at h
  split at h
  · cases h
    simp only [go, work, if_true, afterFire]
  next hnone =>
    cases h
    simp only [go, work, if_true, afterFire]
    intro fire _ hfire
    obtain ⟨hhas, hrows⟩ := hsettled fire hfire
    refine ⟨hhas, fun d hd hc he => (hrows d hd hc he).resolve_right fun hstate => ?_⟩
    -- a fire that is kept back keeps the resolve
    rw [resolveOfKeptFire, if_pos hfire.1, keptFire, Option.map_eq_none_iff, fireWasKept,
      getLast?_eq_none_iff, filter_eq_nil_iff] at hnone
    apply hnone d hd
    simp [hc, he, hfire.2.1, hfire.2.2, hstate]

/-- The fires of a resolve that was sent have ended. -/
def Inv (trail : Trail) (s : World) : Prop :=
  ∀ channelID resolve, (channelID, resolve) ∈ s.sent →
    ∀ fire, trail.FireOf resolve fire → Told s.rows channelID fire

theorem inv_step (h : step trail options e s = some s') (hafter : AfterFire trail e s)
    (hs : Inv trail s) : Inv trail s' := by
  obtain ⟨htold, hsent⟩ := step_kept h
  intro channelID resolve hmem fire hfire
  apply htold
  rcases hsent with hsent | ⟨w, row, rfl, hphase, hsent⟩
  · rw [hsent] at hmem
    exact hs channelID resolve hmem fire hfire
  rw [hsent] at hmem
  rcases mem_cons.mp hmem with hnew | hold
  · cases hnew
    simp only [AfterFire, hphase] at hafter
    exact hafter fire (hfire.lt) hfire
  · exact hs channelID resolve hold fire hfire

/-- **No resolve without its fire.**  In every state reached, a channel that was sent the
resolve of an alert has no row of a fire of this alert that is kept back. -/
theorem no_resolve_without_fire (trail : Trail) (options : Options) (now : Nat) (events : List Event)
    (s : World) (hafter : meets (step trail options) (AfterFire trail) events (start now))
    (hrun : run (step trail options) events (start now) = some s) (channelID resolve : Nat)
    (hsent : (channelID, resolve) ∈ s.sent) (d : Delivery) (hd : d ∈ s.rows)
    (hchannel : d.channelID = channelID) (hfire : trail.FireOf resolve d.eventID) :
    d.state ≠ .suppressed := by
  have hinv : Inv trail s :=
    run_inv_of_meets (I := Inv trail) inv_step hafter hrun
      (fun _ _ hmem => nomatch hmem)
  intro hstate
  rcases (hinv channelID resolve hsent d.eventID hfire).ended d hd hchannel rfl with h | h <;>
    rw [hstate] at h <;> cases h

instance decidablePhaseAfterFire (trail : Trail) (rows : List Delivery) (phase : Phase) :
    Decidable (afterFire trail rows phase) := by
  cases phase <;> unfold afterFire <;> infer_instance

instance decidableAfterFire (trail : Trail) (e : Event) (s : World) : Decidable (AfterFire trail e s) := by
  cases e <;> unfold AfterFire <;> infer_instance

/-- An alert that fires with the first event and is resolved with the second. -/
def oneAlert : Trail where
  message
    | 1 => ⟨.alertFired, 7, some 3, some 4⟩
    | 2 => ⟨.alertResolved, 7, some 3, some 4⟩
    | _ => ⟨.other, 0, none, none⟩
  fire_first := by
    intro i j hi hj _
    match i, j with
    | 2, 1 => decide
    | 0, _ => cases hi
    | 1, _ => cases hi
    | _ + 3, _ => cases hi
    | 2, 0 => cases hj
    | 2, 2 => cases hj
    | 2, _ + 3 => cases hj

def defaults : Options := ⟨30, 20, 50⟩

/-- The row of an event on the channel, as it is written. -/
def freshRow (eventID : Nat) : Delivery := ⟨9, eventID, .pending, 0, 0, none, none, none, none⟩

/-- An event reaches the channel, and its row is claimed and about to be sent. -/
def upToSend (eventID : Nat) : List Event :=
  [.suppression 0 eventID, .collect 0 9, .enqueue 0, .reclaimStale, .claim 5 [freshRow eventID],
    .renew 5, .recheck 5, .recheckFire 5]

/-- The fire is delivered, and then the resolve. -/
def deliveredFirst : List Event :=
  upToSend 1 ++ [.send 5, .answer 5 .sent, .settle 5] ++ (upToSend 2 ++ [.send 5])

def reached (events : List Event) : Option World := run (step oneAlert defaults) events (start 0)

def seen (s : World) : List (Nat × Nat) × List (Nat × Nat × State) :=
  (s.sent, s.rows.map fun d => (d.channelID, d.eventID, d.state))

theorem no_resolve_without_fire_delivered : ∃ s ∈ reached deliveredFirst, (9, 2) ∈ s.sent ∧
      ∀ d ∈ s.rows, d.channelID = 9 → oneAlert.FireOf 2 d.eventID → d.state ≠ .suppressed := by
  have hseen : (reached deliveredFirst).map seen =
      some ([(9, 2), (9, 1)], [(9, 1, .delivered), (9, 2, .leased)]) := by decide
  obtain ⟨s, hs, hsent⟩ := Option.map_eq_some_iff.mp hseen
  have hmem : (9, 2) ∈ s.sent := by
    rw [show s.sent = _ from congrArg Prod.fst hsent]
    decide
  exact ⟨s, hs, hmem, fun d hd hchannel hfire =>
    no_resolve_without_fire oneAlert defaults 0 deliveredFirst s (by decide) hs 9 2 hmem d hd hchannel hfire⟩

/-- The first attempt of the fire fails with a fault that passes, the resolve is delivered
meanwhile, and the second attempt of the fire comes after a silence of the host has started. -/
def silencedBetween : List Event :=
  upToSend 1 ++ [.send 5, .answer 5 (.passing 10), .settle 5] ++ upToSend 2 ++
    [.send 5, .answer 5 .sent, .settle 5, .policies ⟨[⟨1, some 3, none, 100, false, false⟩], []⟩, .tick 10,
      .reclaimStale, .claim 5 [⟨9, 1, .retryWait, 1, 10, none, none, none, none⟩], .renew 5, .recheck 5,
      .keep 5]

/-- The channel got the resolve, and the fire of the alert is kept back. -/
theorem fire_kept_after_resolve : oneAlert.FireOf 2 1 ∧ (reached silencedBetween).map seen =
      some ([(9, 2), (9, 1)], [(9, 1, .suppressed), (9, 2, .delivered)]) := by
  exact ⟨by decide, by decide⟩

end World

end Flotestro.Notify
