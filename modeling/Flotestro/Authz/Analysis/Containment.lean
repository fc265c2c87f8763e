import Flotestro.Authz.Analysis.Lists

/-!
# Handing out access

A grant compares two scopes category by category.  In each category the comparison is the inclusion of
the values that are matched, and a target has its categories independently of each other: a scope that
matches something contains nothing but what it reaches.
-/

set_option autoImplicit false

namespace Flotestro.Authz

open List

theorem containsValue_iff (granted other : Str) : containsValue granted other = true ↔
    ∀ target, matchesValue other target = true → matchesValue granted target = true := by
  have hwildcard : ([] : Str) ≠ wildcard := by decide
  unfold containsValue matchesValue
  by_cases hgranted : granted = wildcard
  · simp [hgranted]
  by_cases hempty : other = []
  · simp [hempty, hwildcard]
  rw [if_neg (not_or.mpr ⟨hgranted, hempty⟩), decide_eq_true_eq]
  constructor
  · rintro rfl target hmatch
    exact hmatch
  · intro h
    by_cases hother : other = wildcard
    · -- of the scopes that reach the empty value, all say they do not care
      simpa [hother] using h []
    · have hsame := h other
      simp [hgranted, hempty] at hsame
      exact hsame.2

theorem matchesTeam_of_containsTeam {s o : Scope} (h : s.containsTeam o = true) {team : Str}
    (hmatch : o.matchesTeam team = true) : s.matchesTeam team = true := by
  unfold Scope.containsTeam at h
  unfold Scope.matchesTeam at hmatch ⊢
  by_cases hany : s.teamAny = true
  · simp [hany]
  · simp_all

theorem containsTeam_of_forall {s o : Scope} {team : Str} (hteam : o.matchesTeam team = true)
    (h : ∀ t, o.matchesTeam t = true → s.matchesTeam t = true) : s.containsTeam o = true := by
  unfold Scope.containsTeam
  unfold Scope.matchesTeam at hteam h
  by_cases hs : s.teamAny = true
  · simp [hs]
  cases ho : o.teamAny with
  | true => simpa [ho] using h []
  | false =>
    simp only [hs, ho, Bool.false_eq_true, if_false, Bool.and_eq_true, decide_eq_true_eq] at h hteam ⊢
    obtain ⟨hne, hsame⟩ := h team ⟨hteam.1, hteam.2⟩
    exact ⟨⟨rfl, hne⟩, hsame.trans hteam.2.symm⟩

theorem containsAll_iff (granted other : List Str) : containsAll granted other = true ↔
    ∀ target, matchesAny other target = true → matchesAny granted target = true := by
  unfold containsAll
  by_cases hgranted : hasWildcard granted = true
  · simp [hgranted, matchesAny_of_hasWildcard]
  rw [if_neg hgranted]
  rw [Bool.not_eq_true] at hgranted
  simp only [matchesAny_iff hgranted, all_eq_true, Bool.and_eq_true, any_eq_true, decide_eq_true_eq]
  constructor
  · intro h target hmatch
    have hother : hasWildcard other = false := by
      simpa [hasWildcard] using fun value hvalue => (h value hvalue).1
    obtain ⟨value, hvalue, htarget⟩ := (matchesAny_iff hother target).mp hmatch
    obtain ⟨-, v, hv, rfl⟩ := h value hvalue
    exact ⟨v, hv, htarget⟩
  · intro h value hvalue
    cases hother : hasWildcard other with
    | true =>
      obtain ⟨v, -, hv⟩ := h [] (matchesAny_of_hasWildcard hother [])
      exact absurd hv not_mem_nil
    | false =>
      have hvalue' : value ≠ wildcard := by
        simpa using any_eq_false.mp hother value hvalue
      obtain ⟨v, hv, hmem⟩ := h [value] ((matchesAny_iff hother _).mpr ⟨value, hvalue, by simp⟩)
      exact ⟨hvalue', v, hv, mem_singleton.mp hmem⟩

/-- A scope contains another that reaches something exactly where it reaches whatever the other
does. -/
theorem contains_exact (s o : Scope) :
    (s.contains o = true → ∀ target, o.matchesTarget target = true → s.matchesTarget target = true) ∧
    ((∃ target, o.matchesTarget target = true) →
      (∀ target, o.matchesTarget target = true → s.matchesTarget target = true) →
      s.contains o = true) := by
  simp only [Scope.contains, Scope.matchesTarget, Bool.and_eq_true, containsValue_iff, containsAll_iff]
  constructor
  · rintro ⟨⟨⟨⟨hsite, henv⟩, hteam⟩, howners⟩, htags⟩ target ⟨⟨⟨⟨h₁, h₂⟩, h₃⟩, h₄⟩, h₅⟩
    exact ⟨⟨⟨⟨hsite _ h₁, henv _ h₂⟩, matchesTeam_of_containsTeam hteam h₃⟩, howners _ h₄⟩, htags _ h₅⟩
  · -- the target that is reached, with one of its categories changed
    rintro ⟨target, ⟨⟨⟨h₁, h₂⟩, h₃⟩, h₄⟩, h₅⟩ h
    refine ⟨⟨⟨⟨fun site h₁ => ?_, fun env h₂ => ?_⟩, ?_⟩, fun owners h₄ => ?_⟩, fun tags h₅ => ?_⟩
    · exact (h { target with site := site } ⟨⟨⟨⟨h₁, h₂⟩, h₃⟩, h₄⟩, h₅⟩).1.1.1.1
    · exact (h { target with environment := env } ⟨⟨⟨⟨h₁, h₂⟩, h₃⟩, h₄⟩, h₅⟩).1.1.1.2
    · apply containsTeam_of_forall h₃
      intro team h₃
      exact (h { target with team := team } ⟨⟨⟨⟨h₁, h₂⟩, h₃⟩, h₄⟩, h₅⟩).1.1.2
    · exact (h { target with owners := owners } ⟨⟨⟨⟨h₁, h₂⟩, h₃⟩, h₄⟩, h₅⟩).1.2
    · exact (h { target with tags := tags } ⟨⟨⟨⟨h₁, h₂⟩, h₃⟩, h₄⟩, h₅⟩).2

theorem contains_exact_owner :
    let own := ofOwner [1]
    (ofOwner wildcard).contains own = true ∧
      ∀ target, own.matchesTarget target = true → (ofOwner wildcard).matchesTarget target = true := by
  intro own
  have hwider := (contains_exact (ofOwner wildcard) own).1 (by decide)
  exact ⟨(contains_exact _ own).2 ⟨own, by decide⟩ hwider, hwider⟩

end Flotestro.Authz
