import Flotestro.Alerts.Model.Evaluator
import Flotestro.Leases.Analysis.Fencing

/-!
# The fence of the evaluator

The token of a row never passes that of the lease, and a statement in flight carries the token of the
lease as long as nobody takes the lease over while it waits (`Inv`).  So a write lands under a token
no earlier write exceeded.  A takeover during the wait breaks this: nothing about the lease is asked
again once the row is free.
-/

set_option autoImplicit false

namespace Flotestro.Alerts

open Library Flotestro.Leases List

variable {ι : Type}

namespace World

/-- The token of the lease is raised when no statement is between its snapshot and its
effect. -/
def Undisturbed [DecidableEq ι] : Event ι → World ι → Prop
  | .lease request began, w =>
    ∀ row ∈ request.effect began w.lease, row.token ≠ w.lease.token → ∀ s ∈ w.statements, s = none
  | _, _ => True

instance decidableUndisturbed [DecidableEq ι] (e : Event ι) (w : World ι) : Decidable (Undisturbed e w) := by
  cases e <;> unfold Undisturbed <;> infer_instance

/-- A database before the evaluator's first statement. -/
structure Fresh (w : World ι) : Prop where
  statements : w.statements = []
  log : w.log = []
  rows : ∀ row, some row ∈ w.alerts → tokenLe row.fencingToken (some w.lease.token)

/-- **What every undisturbed event preserves**. -/
structure Inv (w : World ι) : Prop where
  waiting : ∀ s, some s ∈ w.statements → s.token = w.lease.token
  rows : ∀ row, some row ∈ w.alerts → tokenLe row.fencingToken (some w.lease.token)
  log : ∀ p ∈ w.log, p.2 ≤ w.lease.token
  order : InOrder w.log

theorem inv_of_fresh {w : World ι} (h : w.Fresh) : w.Inv where
  waiting := by
    rw [h.statements]
    simp
  rows := h.rows
  log := by
    rw [h.log]
    simp
  order := by
    rw [h.log]
    exact Pairwise.nil

end World

theorem tokenLe_refl (a : Option Int) : tokenLe a a := by
  cases a with
  | none => trivial
  | some a => exact Int.le_refl a

theorem tokenLe_trans {a b c : Option Int} (hab : tokenLe a b) (hbc : tokenLe b c) :
    tokenLe a c := by
  cases a with
  | none => trivial
  | some a =>
    cases b with
    | none => exact absurd hab id
    | some b =>
      cases c with
      | none => exact absurd hbc id
      | some c => exact Int.le_trans hab hbc

theorem Kind.apply_token {kind : Kind} {token : Int} {row row' : Alert}
    (h : kind.apply token row = some row') : row'.fencingToken = some token := by
  cases kind <;> cases h <;> rfl

namespace World

theorem Rises.refl (w : World ι) : Rises w w :=
  ⟨Nat.le_refl _, fun _ row _ h => ⟨row, h, tokenLe_refl _⟩⟩

theorem Rises.trans {a b c : World ι} (hab : Rises a b) (hbc : Rises b c) : Rises a c := by
  refine ⟨Nat.le_trans hab.length hbc.length, fun id row hid h => ?_⟩
  obtain ⟨row', h', hle'⟩ := hbc.rows id row (Nat.lt_of_lt_of_le hid hab.length) h
  obtain ⟨row'', h'', hle''⟩ := hab.rows id row' hid h'
  exact ⟨row'', h'', tokenLe_trans hle'' hle'⟩

theorem start_token [DecidableEq ι] {w : World ι} {lease : Lease ι} {target : Target}
    (h : w.passes lease target = true) : lease.token = w.lease.token := by
  have hlease : w.fenceLease lease = true := by
    exact (Bool.and_eq_true_iff.mp h).1
  have hcarries := (of_decide_eq_true hlease).1
  exact hcarries.2.2.symm

theorem inOrder_append {log : List (Nat × Int)} {id : Nat} {token : Int} (h : InOrder log)
    (hle : ∀ p ∈ log, p.2 ≤ token) : InOrder (log ++ [(id, token)]) := by
  refine pairwise_append.mpr ⟨h, pairwise_singleton _ _, fun p hp q hq _ => ?_⟩
  obtain rfl := mem_singleton.mp hq
  exact hle p hp

theorem log_append {log : List (Nat × Int)} {id : Nat} {token : Int}
    (h : ∀ p ∈ log, p.2 ≤ token) : ∀ p ∈ log ++ [(id, token)], p.2 ≤ token :=
  forall_mem_concat h (Int.le_refl token)

theorem land_lease (w : World ι) (s : Statement) (conflict : Bool) :
    (w.land s conflict).lease = w.lease := by
  unfold land
  split
  · split <;> rfl
  · split <;> rfl

theorem land_inv {w : World ι} {s : Statement} (conflict : Bool) (h : w.Inv)
    (hs : s.token = w.lease.token) : (w.land s conflict).Inv ∧ Rises w (w.land s conflict) := by
  unfold land
  split
  next kind id htarget =>
    split
    next row hrow =>
      have hrows : ∀ row', some row' ∈ w.alerts.set id (kind.apply s.token row) →
          tokenLe row'.fencingToken (some w.lease.token) := by
        intro row' hmem
        rcases mem_or_eq_of_mem_set hmem with hmem | heq
        · exact h.rows row' hmem
        · rw [Kind.apply_token heq.symm, hs]
          exact tokenLe_refl _
      constructor
      · exact ⟨h.waiting, hrows, hs ▸ log_append (hs ▸ h.log), inOrder_append h.order (hs ▸ h.log)⟩
      · refine ⟨by simp, fun id' row' hid hrow' => ?_⟩
        by_cases hsame : id = id'
        · subst hsame
          refine ⟨row, hrow, ?_⟩
          rw [getElem?_set_self hid] at hrow'
          rw [Kind.apply_token (Option.some.inj hrow'), hs]
          exact h.rows row (mem_of_getElem? hrow)
        · rw [getElem?_set_ne hsame] at hrow'
          exact ⟨row', hrow', tokenLe_refl _⟩
    · exact ⟨h, Rises.refl w⟩
  next state htarget =>
    split
    · exact ⟨h, Rises.refl w⟩
    constructor
    · refine ⟨h.waiting, fun row hrow => ?_, hs ▸ log_append (hs ▸ h.log),
        inOrder_append h.order (hs ▸ h.log)⟩
      rcases mem_append.mp hrow with hrow | hrow
      · exact h.rows row hrow
      · obtain rfl := Option.some.inj (mem_singleton.mp hrow)
        exact Int.le_of_eq hs
    · refine ⟨by simp, fun id row hid hrow => ?_⟩
      rw [getElem?_append_left hid] at hrow
      exact ⟨row, hrow, tokenLe_refl _⟩

variable [DecidableEq ι]

theorem step_inv {e : Event ι} {w w' : World ι} (hstep : step e w = some w')
    (hc : Undisturbed e w) (h : w.Inv) : w'.Inv ∧ Rises w w' := by
  cases e with
  | tick d =>
    cases hstep
    exact ⟨{ h with }, ⟨Nat.le_refl _, (Rises.refl w).rows⟩⟩
  | lease request began =>
    obtain ⟨-, hstep⟩ := Option.ite_none_right_eq_some.mp hstep
    obtain ⟨row, hrow, rfl⟩ := Option.map_eq_some_iff.mp hstep
    have hle : w.lease.token ≤ row.token := (follows_of_effect hrow).token
    refine ⟨⟨fun s hs => ?_, fun a ha => ?_, fun p hp => ?_, h.order⟩,
      ⟨Nat.le_refl _, (Rises.refl w).rows⟩⟩
    · by_cases hsame : row.token = w.lease.token
      · exact (h.waiting s hs).trans hsame.symm
      · have hnone := hc row hrow hsame (some s) hs
        cases hnone
    · exact tokenLe_trans (h.rows a ha) hle
    · exact Int.le_trans (h.log p hp) hle
  | start lease target =>
    cases hstep
    refine ⟨⟨fun s hs => ?_, h.rows, h.log, h.order⟩, ⟨Nat.le_refl _, (Rises.refl w).rows⟩⟩
    rcases mem_append.mp hs with hs | hs
    · exact h.waiting s hs
    · obtain ⟨hpasses, heq⟩ := Option.ite_none_right_eq_some.mp (mem_singleton.mp hs).symm
      cases heq
      exact start_token hpasses
  | land n conflict =>
    obtain ⟨s, hs, rfl⟩ := Option.map_eq_some_iff.mp hstep
    have hs : w.statements[n]? = some (some s) := Option.join_eq_some_iff.mp hs
    obtain ⟨hinv, hrises⟩ := land_inv conflict h (h.waiting s (mem_of_getElem? hs))
    refine ⟨⟨fun t ht => ?_, hinv.rows, hinv.log, hinv.order⟩, ⟨hrises.length, hrises.rows⟩⟩
    rcases mem_or_eq_of_mem_set ht with ht | heq
    · rw [land_lease]
      exact h.waiting t ht
    · cases heq
  | abort n =>
    obtain ⟨-, -, rfl⟩ := Option.map_eq_some_iff.mp hstep
    refine ⟨⟨fun t ht => ?_, h.rows, h.log, h.order⟩, ⟨Nat.le_refl _, (Rises.refl w).rows⟩⟩
    rcases mem_or_eq_of_mem_set ht with ht | heq
    · exact h.waiting t ht
    · cases heq

/-- **As long as nobody takes the lease over while a statement waits, no token on a row
falls and no write lands after one under a larger token**, in any part of any run. -/
theorem fenced_writes_in_order {es fs : List (Event ι)} {w₀ w w' : World ι} (hfresh : w₀.Fresh)
    (hes : meets step Undisturbed es w₀) (hrun : run step es w₀ = some w)
    (hfs : meets step Undisturbed fs w) (hrun' : run step fs w = some w') :
    Rises w w' ∧ InOrder w'.log := by
  have h : w.Inv := run_inv_of_meets (I := Inv)
    (fun hstep hc hinv => (step_inv hstep hc hinv).1) hes hrun (inv_of_fresh hfresh)
  constructor
  · exact run_rel_of_meets (I := Inv) Rises.refl .trans
      (fun hstep hc hinv => (step_inv hstep hc hinv).1)
      (fun hstep hc hinv => (step_inv hstep hc hinv).2) hfs hrun' h
  · have h' : w'.Inv := run_inv_of_meets (I := Inv)
      (fun hstep hc hinv => (step_inv hstep hc hinv).1) hfs hrun' h
    exact h'.order

/-- A lease nobody holds, and one firing episode no token was written on. -/
def oneEpisode : World Bool where
  now := 0
  lease := ⟨none, 0, none⟩
  alerts := [some ⟨.firing, none⟩]
  statements := []
  log := []

theorem fresh_oneEpisode : oneEpisode.Fresh where
  statements := rfl
  log := rfl
  rows row hrow := by
    obtain rfl := Option.some.inj (mem_singleton.mp hrow)
    trivial

/-- A second instance takes the lease over and writes after the first. -/
theorem fenced_writes_in_order_takeover : ∃ (es fs : List (Event Bool)) (w w' : World Bool),
      meets step Undisturbed es oneEpisode ∧ run step es oneEpisode = some w ∧
      meets step Undisturbed fs w ∧ run step fs w = some w' ∧
      w.alerts = [some ⟨.firing, some 1⟩] ∧ w'.alerts = [some ⟨.resolved, some 2⟩] ∧
      Rises w w' ∧ InOrder w'.log := by
  let es : List (Event Bool) := [.lease (.take true 10) 0, .start ⟨some true, 1⟩ (.write .refresh 0),
    .land 0 false]
  let fs : List (Event Bool) := [.tick 20, .lease (.take false 10) 20,
    .start ⟨some true, 1⟩ (.write .resolve 0), .start ⟨some false, 2⟩ (.write .resolve 0),
    .land 2 false]
  let w : World Bool := ⟨0, ⟨some true, 1, some 10⟩, [some ⟨.firing, some 1⟩], [none], [(0, 1)]⟩
  have hes : meets step Undisturbed es oneEpisode := by decide
  have hfs : meets step Undisturbed fs w := by decide
  exact ⟨es, fs, w, _, hes, rfl, hfs, rfl, rfl, rfl,
    fenced_writes_in_order fresh_oneEpisode hes rfl hfs rfl⟩

/-- **A deposed instance writes over its successor**: its statement read the lease before
the takeover, waited for the row, and asks nothing of the lease once it has it.
SOURCE: evaluator.go:281-302, 644-654 -/
theorem deposed_writes_over_successor : ∃ (es : List (Event Bool)) (w w' : World Bool),
      run step es oneEpisode = some w ∧ step (.land 0 false) w = some w' ∧
      w.alerts = [some ⟨.firing, some 2⟩] ∧ w'.alerts = [some ⟨.firing, some 1⟩] ∧
      w'.log = [(0, 2), (0, 1)] ∧ ¬ InOrder w'.log := by
  refine ⟨[.lease (.take true 10) 0, .start ⟨some true, 1⟩ (.write .refresh 0), .tick 20,
    .lease (.take false 10) 20, .start ⟨some false, 2⟩ (.write .refresh 0), .land 1 false], _, _,
    rfl, rfl, rfl, rfl, rfl, fun h => ?_⟩
  have := pairwise_pair.mp h
  exact absurd (this rfl) (by decide)

end World

end Flotestro.Alerts
