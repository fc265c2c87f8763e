import Mathlib.Data.List.Basic

/-!
# Runs of a guarded step function

A result that only one branch of a function can give tells how its test went (`of_then`), and one that
follows a bind tells what was bound (`bind_eq_ok`).  A step `σ → Option σ` is guarded by its `none`: an
event that cannot happen in a state gives no next state.  `run` follows a list of events, and the rules of this module carry invariants and relations
from one event to a whole run.  Any number of actors, each with a state of its own, stand in a list: a
move of one of them sets its place.
-/

set_option autoImplicit false

namespace Flotestro.Library

variable {ε σ α : Type}

variable {c : Prop} [Decidable c] {x y z : α}

theorem of_then (h : (if c then x else y) = z) (hy : y ≠ z) : c ∧ x = z := by
  by_cases hc : c
  · exact ⟨hc, (if_pos hc).symm.trans h⟩
  · exact absurd ((if_neg hc).symm.trans h) hy

theorem of_else (h : (if c then x else y) = z) (hx : x ≠ z) : ¬c ∧ y = z := by
  by_cases hc : c
  · exact absurd ((if_pos hc).symm.trans h) hx
  · exact ⟨hc, (if_neg hc).symm.trans h⟩

theorem bind_eq_ok {α β : Type} {r : Except ε α} {f : α → Except ε β} {b : β} :
    r >>= f = .ok b ↔ ∃ a, r = .ok a ∧ f a = .ok b := by
  cases r with
  | error e => simp [bind, Except.bind]
  | ok a => simp [bind, Except.bind]

theorem then_ok_iff {x : Except ε Unit} {f : Unit → Except ε α} {a : α} :
    x >>= f = .ok a ↔ x = .ok () ∧ f () = .ok a := by
  rw [bind_eq_ok]
  exact ⟨fun ⟨_, hx, hy⟩ => ⟨hx, hy⟩, fun h => ⟨(), h⟩⟩

/-- The state after a list of events, if each of them can happen in its turn. -/
def run (step : ε → σ → Option σ) : List ε → σ → Option σ
  | [], s => some s
  | e :: es, s => (step e s).bind (run step es)

variable {step : ε → σ → Option σ} {s s' : σ}

variable {es : List ε} {C : ε → σ → Prop} {I : σ → Prop}

theorem run_cons {e : ε} (h : run step (e :: es) s = some s') :
    ∃ t, step e s = some t ∧ run step es t = some s' :=
  Option.bind_eq_some_iff.mp h

/-- What a guarded event that happened tells: the guard, and the next state. -/
theorem of_guard {c : Prop} [Decidable c] (h : (if c then some s else none) = some s') :
    c ∧ s = s' :=
  (of_then h nofun).imp_right Option.some.inj

/-- Every event of a run meets a condition in the state where it happens. -/
def meets (step : ε → σ → Option σ) (C : ε → σ → Prop) : List ε → σ → Prop
  | [], _ => True
  | e :: es, s => C e s ∧ ∀ t ∈ step e s, meets step C es t

instance decidableMeets {C : ε → σ → Prop} [hC : ∀ e s, Decidable (C e s)] :
    (es : List ε) → (s : σ) → Decidable (meets step C es s)
  | [], _ => .isTrue trivial
  | e :: es, s =>
    match hs : step e s with
    | none => decidable_of_iff (C e s) (by simp [meets, hs])
    | some t =>
      have := decidableMeets (C := C) es t
      decidable_of_iff (C e s ∧ meets step C es t) (by simp [meets, hs])

theorem meets_of_forall (h : ∀ e s, C e s) (es : List ε) (s : σ) : meets step C es s := by
  induction es generalizing s with
  | nil => trivial
  | cons e es ih => exact ⟨h e s, fun t _ => ih t⟩

theorem meets_cons {e : ε} {t : σ} (hc : C e s) (ht : step e s = some t) (h : meets step C es t) :
    meets step C (e :: es) s :=
  ⟨hc, fun _ hu => Option.mem_unique ht hu ▸ h⟩

theorem meets_append {fs : List ε} {t : σ} (hes : run step es s = some t)
    (h : meets step C (es ++ fs) s) : meets step C es s ∧ meets step C fs t := by
  induction es generalizing s with
  | nil =>
    obtain rfl : s = t := Option.some.inj hes
    exact ⟨trivial, h⟩
  | cons e es ih =>
    obtain ⟨u, hu, hrest⟩ := run_cons hes
    obtain ⟨hes', hfs⟩ := ih hrest (h.2 u hu)
    refine ⟨⟨h.1, fun v hv => ?_⟩, hfs⟩
    obtain rfl : u = v := Option.mem_unique hu hv
    exact hes'

/-- **The invariant rule**, for runs whose events all meet a condition. -/
theorem run_inv_of_meets (hstep : ∀ {e s s'}, step e s = some s' → C e s → I s → I s')
    (hes : meets step C es s) (h : run step es s = some s') (hs : I s) : I s' := by
  induction es generalizing s with
  | nil =>
    obtain rfl : s = s' := Option.some.inj h
    exact hs
  | cons e es ih =>
    obtain ⟨t, ht, hrest⟩ := run_cons h
    exact ih (hes.2 t ht) hrest (hstep ht hes.1 hs)

/-- **The relation rule**: under an invariant, a transitive relation that every event keeps
relates the ends of a run. -/
theorem run_rel_of_meets {r : σ → σ → Prop} (hrefl : ∀ s, r s s)
    (htrans : ∀ {s t u}, r s t → r t u → r s u)
    (hinv : ∀ {e s s'}, step e s = some s' → C e s → I s → I s')
    (hstep : ∀ {e s s'}, step e s = some s' → C e s → I s → r s s') (hes : meets step C es s)
    (h : run step es s = some s') (hs : I s) : r s s' := by
  induction es generalizing s with
  | nil =>
    obtain rfl : s = s' := Option.some.inj h
    exact hrefl s
  | cons e es ih =>
    obtain ⟨t, ht, hrest⟩ := run_cons h
    exact htrans (hstep ht hes.1 hs) (ih (hes.2 t ht) hrest (hinv ht hes.1 hs))

theorem run_inv (hstep : ∀ {e s s'}, step e s = some s' → I s → I s') (h : run step es s = some s')
    (hs : I s) : I s' :=
  run_inv_of_meets (C := fun _ _ => True) (fun ht _ => hstep ht)
    (meets_of_forall (fun _ _ => trivial) es s) h hs

theorem run_rel {r : σ → σ → Prop} (hrefl : ∀ s, r s s) (htrans : ∀ {s t u}, r s t → r t u → r s u)
    (hinv : ∀ {e s s'}, step e s = some s' → I s → I s')
    (hstep : ∀ {e s s'}, step e s = some s' → I s → r s s') (h : run step es s = some s') (hs : I s) :
    r s s' :=
  run_rel_of_meets (C := fun _ _ => True) hrefl htrans (fun ht _ => hinv ht)
    (fun ht _ => hstep ht) (meets_of_forall (fun _ _ => trivial) es s) h hs

variable {l : List α} {n : Nat} {a b : α} {P : α → Prop} {p : α → Bool}

theorem forall_mem_set (h : ∀ x ∈ l, P x) (hb : P b) : ∀ x ∈ l.set n b, P x := by
  intro x hx
  rcases List.mem_or_eq_of_mem_set hx with hx | rfl
  · exact h x hx
  · exact hb

theorem forall_mem_concat (h : ∀ x ∈ l, P x) (hb : P b) : ∀ x ∈ l ++ [b], P x := by
  simpa [or_imp, forall_and] using ⟨h, hb⟩

/-- The actors in some state, before and after one of them moves. -/
theorem countP_set_add (h : l[n]? = some a) :
    (l.set n b).countP p + (p a).toNat = l.countP p + (p b).toNat := by
  induction l generalizing n with
  | nil => simp at h
  | cons x l ih =>
    cases n with
    | zero =>
      obtain rfl : x = a := by simpa using h
      cases hx : p x <;> cases hb : p b <;> simp [hx, hb]
    | succ n =>
      have := ih (n := n) (by simpa using h)
      cases hx : p x <;> simp [hx] <;> omega

end Flotestro.Library
