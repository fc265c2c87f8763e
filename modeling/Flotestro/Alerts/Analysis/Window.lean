import Flotestro.Alerts.Model.Evaluator
import Mathlib.Order.Bounds.Basic

/-!
# The start of a window

The loop leaves the least moment from which the samples go on unbroken to the present.
-/

set_option autoImplicit false

namespace Flotestro.Alerts

variable {ρ : Type} (now gap : Int) (holds : Option (Sample ρ → Bool))

/-- From the moment over the samples to the present none lies later than the one before it by more
than the gap, and the samples hold. -/
def Unbroken : Int → List (Sample ρ) → Prop
  | t, [] => timeSub now t ≤ gap
  | t, x :: rest => timeSub x.moment t ≤ gap ∧ judged holds x = true ∧ Unbroken x.moment rest

/-- The moment is that of a sample that holds and from which on they are unbroken. -/
def StartsIn : List (Sample ρ) → Int → Prop
  | [], _ => False
  | x :: rest, t =>
    (t = x.moment ∧ judged holds x = true ∧ Unbroken now gap holds x.moment rest) ∨ StartsIn rest t

/-- The least moment with the property, or the present where there is none. -/
def LeastOr (P : Int → Prop) (r : Int) : Prop := IsLeast {t | P t} r ∨ (∀ t, ¬P t) ∧ r = now

variable {now gap holds} {P P' : Int → Prop} {r : Int} {samples : List (Sample ρ)}

theorem LeastOr.of_below (h : LeastOr now P r) (hsub : ∀ t, P t → P' t) (hbelow : ∀ t, P' t → ∃ u ≤ t, P u) :
    LeastOr now P' r := by
  obtain ⟨hr, hle⟩ | ⟨hnone, rfl⟩ := h
  · refine .inl ⟨hsub r hr, fun t ht => ?_⟩
    obtain ⟨u, hut, hu⟩ := hbelow t ht
    exact (hle hu).trans hut
  · refine .inr ⟨fun t ht => ?_, rfl⟩
    obtain ⟨u, -, hu⟩ := hbelow t ht
    exact hnone u hu

/-- **What the loop leaves** of the start it had and of the samples. -/
theorem walk_least {started : Int} (hsorted : samples.Pairwise fun a b => a.moment ≤ b.moment) (w : Walk)
    (hsince : ∀ x ∈ samples, started ≤ x.moment → w.since ≤ x.moment) :
    LeastOr now (fun t =>
        (t = w.since ∧ w.broke = false ∧
            Unbroken now gap holds w.last (samples.filter (started ≤ ·.moment))) ∨
          StartsIn now gap holds (samples.filter (started ≤ ·.moment)) t)
      ((samples.foldl (Walk.next started gap holds) w).result now gap) := by
  induction samples generalizing w with
  | nil =>
    by_cases h : w.broke = true ∨ timeSub now w.last > gap
    · refine .inr ⟨?_, if_pos h⟩
      simp [StartsIn, Unbroken]
      grind
    · rw [show (List.foldl (Walk.next started gap holds) w []).result now gap = w.since from if_neg h]
      simp [StartsIn] at h ⊢
      exact .inl ⟨⟨rfl, h⟩, fun t ht => ht.1.ge⟩
  | cons x samples ih =>
    obtain ⟨hle, hsorted⟩ := List.pairwise_cons.mp hsorted
    obtain ⟨hx, hsince⟩ := List.forall_mem_cons.mp hsince
    rw [List.foldl_cons, Walk.next]
    split
    next hbefore =>
      rw [List.filter_cons_of_neg (by simpa using hbefore)]
      exact ih hsorted w hsince
    next hafter =>
      rw [List.filter_cons_of_pos (by simpa using hafter)]
      simp only [StartsIn, Unbroken]
      split
      next hbreak =>
        -- the run can only start here, or later
        apply (ih hsorted ⟨x.moment, x.moment, !judged holds x⟩ fun y hy _ => hle y hy).of_below
        · simp
          tauto
        · grind
      next hgoes =>
        -- what starts here starts before as well
        apply (ih hsorted ⟨w.since, x.moment, !judged holds x⟩ hsince).of_below
        · grind
        · rintro t (⟨rfl, -, -, hrest⟩ | ⟨rfl, hrest⟩ | hstarts)
          · exact ⟨_, le_rfl, .inl ⟨rfl, by simpa using hrest⟩⟩
          · exact ⟨_, hx (not_lt.mp hafter), .inl ⟨rfl, by simpa using hrest⟩⟩
          · exact ⟨t, le_rfl, .inr hstarts⟩

/-- **The start of a window**: of the start and the moments of the samples at or after it, the least
from which on they are unbroken to the present, or the present where there is none. -/
theorem continuousSince_least (started : Int) (samples : List (Sample ρ)) (now gap : Int)
    (holds : Option (Sample ρ → Bool)) (hsorted : samples.Pairwise fun a b => a.moment ≤ b.moment) :
    LeastOr now (fun t =>
        (t = started ∧ Unbroken now gap holds started (samples.filter (started ≤ ·.moment))) ∨
          StartsIn now gap holds (samples.filter (started ≤ ·.moment)) t)
      (continuousSince started samples now gap holds) := by
  unfold continuousSince
  simpa using @walk_least ρ now gap holds samples started hsorted ⟨started, started, false⟩ fun _ _ hx => hx

theorem continuousSince_least_broken :
    continuousSince 0 [⟨5, false⟩, ⟨7, true⟩] 9 10 (some Sample.reading) = 7 ∧
      LeastOr 9 (fun t => (t = 0 ∧ Unbroken 9 10 (some Sample.reading) 0 [⟨5, false⟩, ⟨7, true⟩]) ∨
        StartsIn 9 10 (some Sample.reading) [⟨5, false⟩, ⟨7, true⟩] t) 7 := by
  exact ⟨by decide, continuousSince_least 0 [⟨5, false⟩, ⟨7, true⟩] 9 10 (some Sample.reading) (by simp)⟩

/-- A sample that broke the run is overlooked where another one has its moment, a hole is where the
last sample lies after the present, and so is one over the longest duration. -/
theorem broken_moment_returned :
    continuousSince 0 [⟨5, false⟩, ⟨5, true⟩] 6 10 (some Sample.reading) = 5 ∧
      judged (some Sample.reading) ⟨5, false⟩ = false ∧
    continuousSince 0 [⟨100, true⟩] 0 60 none = 100 ∧
    continuousSince 0 ([] : List (Sample Bool)) 9223372036854775808 maxDuration none = 0 := by
  decide

end Flotestro.Alerts
