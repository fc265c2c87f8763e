import Flotestro.Library.Command
import Mathlib.Logic.Relation

/-!
# Programs among other sessions

One program runs at a time against a state that other sessions change between its commands.
`Interleaving` says what a run of such a system is.  `Prog.Safe` says that a program meets a
condition at every command it issues, whatever the other sessions did before it, and ends in its
postcondition; the rules below build it along the program's own text.

`Interleaving.safe_of_reachable` is the rule a component uses: an invariant of the state that the
other sessions keep, that every command keeps under its condition, and from which every program
that may start is safe, holds in every state of every run, and so does the condition at every
command a run is about to issue.

Nothing here names a component.
-/

set_option autoImplicit false

namespace Flotestro.Library

namespace Prog

variable {C : Type} {R : C → Type} {α β γ ι σ : Type}

/-- Every command of the program meets `P`, whatever moves of `rely` come before it, and
the program ends in `Q`. -/
def Safe (rely : σ → σ → Prop) (step : (c : C) → σ → R c × σ) (P : C → σ → Prop) :
    Prog C R α → (α → σ → Prop) → σ → Prop
  | .ret a, Q, s => Q a s
  | .call c k, Q, s =>
    ∀ s', rely s s' → P c s' ∧ Safe rely step P (k (step c s').1) Q (step c s').2

variable {rely : σ → σ → Prop} {step : (c : C) → σ → R c × σ} {P : C → σ → Prop}

variable {s : σ} {p : Prog C R α} {Q : α → σ → Prop}

theorem safe_pure {a : α} (h : Q a s) : Safe rely step P (pure a : Prog C R α) Q s := h

/-- A command is safe when its condition and its postcondition hold after every move of
the others. -/
theorem safe_issue {c : C} {Q : R c → σ → Prop}
    (h : ∀ s', rely s s' → P c s' ∧ Q (step c s').1 (step c s').2) :
    Safe rely step P (issue c : Prog C R (R c)) Q s := h

/-- **The sequence rule.** -/
theorem safe_bind {f : α → Prog C R β} {M : α → σ → Prop} {Q : β → σ → Prop}
    (hp : Safe rely step P p M s) (hf : ∀ a s, M a s → Safe rely step P (f a) Q s) :
    Safe rely step P (p >>= f) Q s := by
  induction p generalizing s with
  | ret a => exact hf a s hp
  | call c k ih =>
    intro s' hs'
    exact ⟨(hp s' hs').1, ih _ (hp s' hs').2⟩

/-- The answer of a program may be passed on changed. -/
theorem safe_map {f : α → β} {Q : β → σ → Prop} (hp : Safe rely step P p (fun a s => Q (f a) s) s) :
    Safe rely step P (f <$> p) Q s :=
  safe_bind (f := fun a => pure (f a)) hp fun _ _ h => safe_pure h

/-- **The consequence rule.** -/
theorem Safe.mono {Q' : α → σ → Prop} (h : Safe rely step P p Q s) (hQ : ∀ a s, Q a s → Q' a s) :
    Safe rely step P p Q' s := by
  induction p generalizing s with
  | ret a => exact hQ a s h
  | call c k ih =>
    intro s' hs'
    exact ⟨(h s' hs').1, ih _ (h s' hs').2⟩

/-- A safe program stays safe while the others move, if the end of it does. -/
theorem Safe.rely_trans (htrans : ∀ a b c, rely a b → rely b c → rely a c)
    (hQ : ∀ a s s', Q a s → rely s s' → Q a s') {s' : σ} (h : Safe rely step P p Q s)
    (hs : rely s s') : Safe rely step P p Q s' := by
  cases p with
  | ret a => exact hQ a s s' h hs
  | call c k =>
    intro s'' hs''
    exact h s'' (htrans s s' s'' hs hs'')

/-- Run `f` on one item after another, with a state of its own, until it says stop. -/
def each (f : γ → ι → Prog C R (γ × Bool)) : List ι → γ → Prog C R (γ × Bool)
  | [], m => pure (m, true)
  | i :: rest, m => do
    let (m', goesOn) ← f m i
    if goesOn then each f rest m' else pure (m', false)

/-- **The loop rule.**  `J` is the loop's invariant, over the items still to come. -/
theorem safe_each {f : γ → ι → Prog C R (γ × Bool)} {J : List ι → γ → σ → Prop} {B : γ → σ → Prop}
    (hstep : ∀ i rest m s, J (i :: rest) m s →
      Safe rely step P (f m i) (fun r s' => if r.2 then J rest r.1 s' else B r.1 s') s)
    (is : List ι) {m : γ} (hm : J is m s) :
    Safe rely step P (each f is m) (fun r s' => if r.2 then J [] r.1 s' else B r.1 s') s := by
  induction is generalizing m s with
  | nil => exact safe_pure hm
  | cons i rest ih =>
    refine safe_bind (hstep i rest m s hm) ?_
    rintro ⟨m', goesOn⟩ s' hs'
    cases goesOn with
    | true => exact ih hs'
    | false => exact safe_pure hs'

end Prog

/-- A system in which one program at a time runs among other sessions. -/
structure Interleaving (C : Type) (R : C → Type) (σ : Type) where
  /-- A program that may start when none runs. -/
  Starts : Prog C R Unit → Prop
  /-- One transaction of another session. -/
  Other : σ → σ → Prop
  /-- What a command of the program answers and leaves. -/
  step : (c : C) → σ → R c × σ

namespace Interleaving

variable {C : Type} {R : C → Type} {σ : Type} (sys : Interleaving C R σ)

/-- One step of a run, from what is left of the running program and the state. -/
inductive Step : Prog C R Unit × σ → Prog C R Unit × σ → Prop where
  | other {p : Prog C R Unit} {s s' : σ} (h : sys.Other s s') : Step (p, s) (p, s')
  | start {p : Prog C R Unit} {s : σ} (h : sys.Starts p) : Step (.ret (), s) (p, s)
  | command {c : C} {k : R c → Prog C R Unit} {s : σ} :
      Step (.call c k, s) (k (sys.step c s).1, (sys.step c s).2)

/-- What a run reaches from a first state, with nothing running at first. -/
inductive Reachable (first : σ → Prop) : Prog C R Unit × σ → Prop where
  | first {s : σ} (h : first s) : Reachable first (.ret (), s)
  | step {x y : Prog C R Unit × σ} (hx : Reachable first x) (h : sys.Step x y) :
      Reachable first y

variable {sys} {first : σ → Prop} {P : C → σ → Prop} {I : σ → Prop}

/-- **The rule for runs.** -/
theorem safe_of_reachable (hfirst : ∀ s, first s → I s)
    (hother : ∀ s s', I s → sys.Other s s' → I s')
    (hcommand : ∀ c s, P c s → I s → I (sys.step c s).2) (hstarts : ∀ p s, sys.Starts p → I s →
      Prog.Safe (Relation.ReflTransGen sys.Other) sys.step P p (fun _ _ => True) s)
    {x : Prog C R Unit × σ} (hx : sys.Reachable first x) :
    I x.2 ∧ Prog.Safe (Relation.ReflTransGen sys.Other) sys.step P x.1 (fun _ _ => True) x.2 := by
  induction hx with
  | first h => exact ⟨hfirst _ h, trivial⟩
  | step _ hxy ih =>
    cases hxy with
    | other h =>
      refine ⟨hother _ _ ih.1 h, ?_⟩
      exact ih.2.rely_trans (fun _ _ _ => Relation.ReflTransGen.trans)
        (fun _ _ _ _ _ => trivial) (.single h)
    | start h => exact ⟨ih.1, hstarts _ _ h ih.1⟩
    | command =>
      have hnow := ih.2 _ .refl
      exact ⟨hcommand _ _ hnow.1 ih.1, hnow.2⟩

/-- The running program issues its next commands, with nothing in between. -/
def commands (sys : Interleaving C R σ) : Nat → Prog C R Unit × σ → Prog C R Unit × σ
  | n + 1, (.call c k, s) => sys.commands n (k (sys.step c s).1, (sys.step c s).2)
  | _, x => x

theorem Reachable.commands {x : Prog C R Unit × σ} (hx : sys.Reachable first x) (n : Nat) :
    sys.Reachable first (sys.commands n x) := by
  induction n generalizing x with
  | zero => exact hx
  | succ n ih =>
    obtain ⟨p, s⟩ := x
    cases p with
    | ret a => exact hx
    | call c k => exact ih (hx.step .command)

end Interleaving

end Flotestro.Library
