import Mathlib.Logic.Basic

/-!
# Programs over commands

A component that takes its lock, does a number of primitive actions and returns is
written here as a `Prog`: a tree whose nodes are the commands it issues, each with a
continuation for the answer.  `Prog.exec` runs a program against a state, given what one
command does.

Two rules carry every invariant of a component built this way.

* `Prog.exec_inv`: an invariant that each command keeps, under a condition on the command
  and the state it is issued in, is kept by every program along which the condition holds
  (`Prog.Along`).
* `Prog.exec_rel`: a reflexive and transitive relation that each command respects relates
  the state before a program to the state after it.

Nothing here names a component.
-/

set_option autoImplicit false

namespace Flotestro.Library

/-- A program issuing commands from `C`, where `R c` is the type of the answer to
the command `c`, and returning a value of `α`. -/
inductive Prog (C : Type) (R : C → Type) (α : Type) : Type where
  | ret (a : α) : Prog C R α
  | call (c : C) (k : R c → Prog C R α) : Prog C R α

namespace Prog

variable {C : Type} {R : C → Type} {α β σ : Type}

protected def bind : Prog C R α → (α → Prog C R β) → Prog C R β
  | .ret a, f => f a
  | .call c k, f => .call c fun r => (k r).bind f

instance : Monad (Prog C R) where
  pure := .ret
  bind := Prog.bind

/-- The program that issues one command and returns its answer. -/
def issue (c : C) : Prog C R (R c) := .call c .ret

/-- Run a program, `step c s` being the answer to `c` in `s` and the state left. -/
def exec (step : (c : C) → σ → R c × σ) : Prog C R α → σ → α × σ
  | .ret a, s => (a, s)
  | .call c k, s => exec step (k (step c s).1) (step c s).2

/-- The condition `P` holds of every command a program issues, in the state it is
issued in. -/
def Along (step : (c : C) → σ → R c × σ) (P : C → σ → Prop) : Prog C R α → σ → Prop
  | .ret _, _ => True
  | .call c k, s => P c s ∧ Along step P (k (step c s).1) (step c s).2

variable {step : (c : C) → σ → R c × σ} {P Q : C → σ → Prop}

@[simp] theorem exec_pure (a : α) (s : σ) :
    exec step (pure a : Prog C R α) s = (a, s) := rfl

@[simp] theorem exec_ret (a : α) (s : σ) : exec step (.ret a : Prog C R α) s = (a, s) := rfl

@[simp] theorem exec_issue (c : C) (s : σ) :
    exec step (issue c : Prog C R (R c)) s = step c s := rfl

/-- A sequence runs its first part and then the rest from where that left off. -/
@[simp] theorem exec_bind (p : Prog C R α) (f : α → Prog C R β) (s : σ) :
    exec step (p >>= f) s = exec step (f (exec step p s).1) (exec step p s).2 := by
  induction p generalizing s with
  | ret a => rfl
  | call c k ih => exact ih (step c s).1 (step c s).2

/-- A sequence that ignores the answer of its first part. -/
@[simp] theorem exec_seqRight (p : Prog C R α) (q : Prog C R β) (s : σ) :
    exec step (p >>= fun _ => q) s = exec step q (exec step p s).2 := by
  rw [exec_bind]

@[simp] theorem along_pure (a : α) (s : σ) : Along step P (pure a : Prog C R α) s := trivial

@[simp] theorem along_ret (a : α) (s : σ) : Along step P (.ret a : Prog C R α) s := trivial

@[simp] theorem along_issue (c : C) (s : σ) :
    Along step P (issue c : Prog C R (R c)) s ↔ P c s := by
  simp [issue, Along]

/-- A condition holds along a sequence when it holds along both its parts. -/
@[simp] theorem along_bind (p : Prog C R α) (f : α → Prog C R β) (s : σ) :
    Along step P (p >>= f) s ↔
      Along step P p s ∧ Along step P (f (exec step p s).1) (exec step p s).2 := by
  induction p generalizing s with
  | ret a =>
    constructor
    · intro h
      exact ⟨trivial, h⟩
    · intro h
      exact h.2
  | call c k ih =>
    have := ih (step c s).1 (step c s).2
    constructor
    · intro h
      exact ⟨⟨h.1, (this.mp h.2).1⟩, (this.mp h.2).2⟩
    · intro h
      exact ⟨h.1.1, this.mpr ⟨h.1.2, h.2⟩⟩

theorem along_issue_bind {c : C} {f : R c → Prog C R β} {s : σ} (hc : P c s)
    (h : Along step P (f (exec step (issue c) s).1) (exec step (issue c) s).2) :
    Along step P (issue c >>= f) s :=
  (along_bind _ _ _).mpr ⟨(along_issue c s).mpr hc, h⟩

/-- A condition that every command meets in every state holds along every program. -/
theorem along_of_forall (h : ∀ c s, P c s) (p : Prog C R α) (s : σ) : Along step P p s := by
  induction p generalizing s with
  | ret a => trivial
  | call c k ih => exact ⟨h c s, ih _ _⟩

variable {p : Prog C R α} {s : σ}

/-- A condition along a program may be weakened. -/
theorem Along.mono (h : Along step P p s) (hPQ : ∀ c s, P c s → Q c s) : Along step Q p s := by
  induction p generalizing s with
  | ret a => trivial
  | call c k ih => exact ⟨hPQ c s h.1, ih _ h.2⟩

/-- A condition along a program is decided by running it. -/
instance decidableAlong [∀ c s, Decidable (P c s)] :
    (p : Prog C R α) → (s : σ) → Decidable (Along step P p s)
  | .ret _, _ => isTrue trivial
  | .call c k, s =>
    have : Decidable (Along step P (k (step c s).1) (step c s).2) :=
      decidableAlong (k (step c s).1) (step c s).2
    inferInstanceAs (Decidable (P c s ∧ Along step P (k (step c s).1) (step c s).2))

/-- **The invariant rule.**  What every command keeps under the condition `P` is
kept by every program along which `P` holds. -/
theorem exec_inv {I : σ → Prop} (h : ∀ c s, P c s → I s → I (step c s).2) (hp : Along step P p s)
    (hs : I s) : I (exec step p s).2 := by
  induction p generalizing s with
  | ret a => exact hs
  | call c k ih => exact ih _ hp.2 (h c s hp.1 hs)

/-- A condition may be read together with the invariant it helps to keep. -/
theorem along_inv {I : σ → Prop} (h : ∀ c s, P c s → I s → I (step c s).2) (hp : Along step P p s)
    (hs : I s) : Along step (fun c s => P c s ∧ I s) p s := by
  induction p generalizing s with
  | ret a => trivial
  | call c k ih => exact ⟨⟨hp.1, hs⟩, ih _ hp.2 (h c s hp.1 hs)⟩

/-- **The relation rule.**  A reflexive and transitive relation that every command
respects holds between the two ends of every program. -/
theorem exec_rel {r : σ → σ → Prop} (hrefl : ∀ s, r s s) (htrans : ∀ a b c, r a b → r b c → r a c)
    (h : ∀ c s, P c s → r s (step c s).2) (hp : Along step P p s) : r s (exec step p s).2 := by
  induction p generalizing s with
  | ret a => exact hrefl s
  | call c k ih => exact htrans _ _ _ (h c s hp.1) (ih _ hp.2)

end Prog

end Flotestro.Library
