import Flotestro.Agent.Analysis.Once

/-!
# The in-flight marker after an execution

An execution takes its marker away with the result it stores.  A result with the code of a task that
never reached the host is not stored, and this code also comes from the helper, which refuses a request
as locked after the marker is down: the marker stays, and the next delivery is answered with an unknown
outcome although no process stopped.  So it is after a panic that was recovered: the deferred function
settles the marker with an unknown outcome.
-/

set_option autoImplicit false

namespace Flotestro.Agent

open Library

namespace World

variable {s s' : World} {e : Event} {d : Nat}

/-- The process does not stop and the writes of the journal succeed. -/
def Undisturbed : Event → Prop
  | .crash _ => False
  | .mark _ write | .store _ write => write = .done
  | .remove _ removed => removed = true
  | _ => True

/-- What a mutating task asked the host for does not end with a code of a task that never reached
it, no run panics while a marker is down, and no result says of itself that its outcome is unknown. -/
def Reaching : Event → World → Prop
  | .refuse _ code, _ => code ≠ .outcomeUnknown
  | .performed d code, s =>
    ((s.executions d).mutating = true → code.unsettled = false) ∧ code ≠ .outcomeUnknown
  | .panic _, s => s.journal.marker = none
  | _, _ => True

def Truthful (e : Event) (s : World) : Prop := Undisturbed e ∧ Reaching e s

/-- The places of `Execute` where its marker may be down. -/
def Carries (mutating : Bool) : Position → Prop
  | .marked | .performing => mutating = true
  | .storing _ _ | .removing _ => True
  | .ended code => code.unsettled = false
  | .idle | .claimed | .lookedUp | .fresh | .finishing _ | .returned => False

/-- The answer is an unknown outcome: from a marker, from the journal or of the run itself. -/
def Unknown (a : Answer) : Prop :=
  a = .outcomeUnknown ∨ a = .stored .outcomeUnknown ∨ a = .result .outcomeUnknown

theorem not_unknown_stored {code : Code} (h : code ≠ .outcomeUnknown) : ¬Unknown (.stored code) := by
  rintro (h' | h' | h')
  · cases h'
  · exact h (Answer.stored.inj h')
  · cases h'

theorem not_unknown_result {code : Code} (h : code ≠ .outcomeUnknown) : ¬Unknown (.result code) := by
  rintro (h' | h' | h')
  · cases h'
  · cases h'
  · exact h (Answer.result.inj h')

/-- The places of `Execute` between the claim of the key and its end. -/
def Busy : Position → Prop
  | .idle | .returned => False
  | .claimed | .lookedUp | .fresh | .marked | .performing | .ended _ | .storing _ _ | .removing _
  | .finishing _ => True

/-- The result and the answer an execution is about to give are no unknown outcome. -/
def Answers : Position → Prop
  | .ended code => code ≠ .outcomeUnknown
  | .storing code a => code ≠ .outcomeUnknown ∧ ¬Unknown a
  | .removing a | .finishing a => ¬Unknown a
  | .idle | .claimed | .lookedUp | .fresh | .marked | .performing | .returned => True

/-- A marker belongs to the execution that runs, and no unknown outcome is on its way. -/
structure Tidy (s : World) : Prop where
  holder : ∀ d, s.pos d = .idle ∨ s.pos d = .returned ∨ s.running = some d
  marker : (∀ d, s.running = some d → ¬Carries (s.executions d).mutating (s.pos d)) →
    s.journal.marker = none
  stored : s.journal.result ≠ some .outcomeUnknown
  pending : ∀ d, Answers (s.pos d)
  answers : ∀ late a, (late, a) ∈ s.answers → ¬Unknown a

theorem Tidy.running_eq (h : Tidy s) (hbusy : Busy (s.pos d)) : s.running = some d := by
  rcases h.holder d with hp | hp | hp
  · rw [hp] at hbusy
    exact hbusy.elim
  · rw [hp] at hbusy
    exact hbusy.elim
  · exact hp

section
variable (h : Tidy s) (hd : s.running = some d)
include h hd

theorem Tidy.unmarked (hcarries : ¬Carries (s.executions d).mutating (s.pos d)) :
    s.journal.marker = none := by
  refine h.marker fun f hf => ?_
  obtain rfl : d = f := Option.mem_unique hd hf
  exact hcarries

theorem Tidy.go {p : Position} {j : Journal} {n : Nat}
    (hmarker : ¬Carries (s.executions d).mutating p → j.marker = none)
    (hstored : j.result ≠ some .outcomeUnknown) (hanswers : Answers p) :
    Tidy { s.move d p with journal := j, performs := n } where
  holder := holder_move h.holder hd p
  marker hnone := by
    refine hmarker fun hp => hnone d hd ?_
    change Carries ((s.move d p).executions d).mutating ((s.move d p).pos d)
    rwa [(execution_move s d d p).2, pos_move, if_pos rfl]
  stored := hstored
  pending f := by
    change Answers ((s.move d p).pos f)
    rw [pos_move]
    split
    · assumption
    · exact h.pending f
  answers := h.answers

theorem Tidy.answer (hcarries : ¬Carries (s.executions d).mutating (s.pos d)) {a : Answer}
    (ha : ¬Unknown a) : Tidy (s.answer d a) where
  holder := holder_answer h.holder hd
  marker _ := h.unmarked hd hcarries
  stored := h.stored
  pending f := by
    change Answers ((s.move d .returned).pos f)
    rw [pos_move]
    split
    · trivial
    · exact h.pending f
  answers late b hb := by
    rcases List.mem_cons.mp hb with hb | hb
    · obtain ⟨-, rfl⟩ := Prod.mk.inj hb
      exact ha
    · exact h.answers late b hb

end

theorem Tidy.deliver (h : Tidy s) {attempt : Nat} {mutating : Bool}
    (hstep : step (.deliver d attempt mutating) s = some s') : Tidy s' := by
  obtain ⟨hidle, hstep⟩ := of_then hstep nofun
  split at hstep
  next hfree =>
    cases hstep
    have hnone : s.journal.marker = none := h.marker fun f hf => by rw [hfree] at hf; cases hf
    refine ⟨fun f => ?_, fun _ => hnone, h.stored, fun f => ?_, h.answers⟩
    · rw [pos_setExecution]
      by_cases hf : f = d
      · rw [hf]
        exact .inr (.inr rfl)
      rw [if_neg hf]
      have hf' := h.holder f
      rw [hfree] at hf'
      rcases hf' with hp | hp | hp
      · exact .inl hp
      · exact .inr (.inl hp)
      · cases hp
    · rw [pos_setExecution]
      split
      · trivial
      · exact h.pending f
  · cases hstep
    refine ⟨fun f => ?_, fun hnone => h.marker fun f hf hcarries => ?_, h.stored, fun f => ?_,
      fun late a ha => ?_⟩
    · change (s.setExecution d _).pos f = .idle ∨ (s.setExecution d _).pos f = .returned ∨
        s.running = some f
      rw [pos_setExecution]
      split
      · exact .inr (.inl rfl)
      · exact h.holder f
    · -- the execution that runs is another one: this delivery was idle
      have hne : f ≠ d := fun hfd => by
        rw [hfd, hidle] at hcarries
        exact hcarries
      refine hnone f hf ?_
      change Carries (if f = d then _ else s.executions f).mutating ((s.setExecution d _).pos f)
      rwa [pos_setExecution, if_neg hne, if_neg hne]
    · change Answers ((s.setExecution d _).pos f)
      rw [pos_setExecution]
      split
      · trivial
      · exact h.pending f
    · rcases List.mem_cons.mp ha with ha | ha
      · obtain ⟨-, rfl⟩ := Prod.mk.inj ha
        rintro (heq | heq | heq) <;> cases heq
      · exact h.answers late a ha

/-- A run that panics where no marker is down leaves nothing behind. -/
theorem tidy_unsettled (h : Tidy s) (hd : s.running = some d) (hmarker : s.journal.marker = none) :
    Tidy (s.unsettled d) := by
  rw [unsettled, hmarker]
  refine h.go hd (fun _ => hmarker) h.stored ?_
  rintro (heq | heq | heq) <;> cases heq

theorem tidy_step (hstep : step e s = some s') (htruthful : Truthful e s) (h : Tidy s) : Tidy s' := by
  obtain ⟨hundisturbed, hreaching⟩ := htruthful
  cases e with
  | deliver d attempt mutating => exact h.deliver hstep
  | refuseCanceled d =>
    obtain ⟨hpos, rfl⟩ := of_guard hstep
    refine h.answer (h.running_eq (hpos ▸ trivial)) (hpos ▸ id) ?_
    rintro (heq | heq | heq) <;> cases heq
  | lookup d =>
    obtain ⟨hpos, hstep⟩ := of_then hstep nofun
    have hd : s.running = some d := h.running_eq (hpos ▸ trivial)
    have hnone := h.unmarked hd (hpos ▸ id)
    split at hstep
    next code hresult =>
      cases hstep
      refine h.answer hd (hpos ▸ id) (not_unknown_stored fun heq => h.stored ?_)
      rw [hresult, heq]
    · cases hstep
      exact h.go hd (fun _ => hnone) h.stored trivial
  | inFlight d =>
    obtain ⟨hpos, hstep⟩ := of_then hstep nofun
    have hd : s.running = some d := h.running_eq (hpos ▸ trivial)
    have hnone := h.unmarked hd (hpos ▸ id)
    rw [hnone] at hstep
    cases hstep
    exact h.go hd (fun _ => hnone) h.stored trivial
  | refuse d code =>
    obtain ⟨hpos, hstep⟩ := of_then hstep nofun
    have hd : s.running = some d := h.running_eq (hpos ▸ trivial)
    cases hstep
    exact h.go hd (fun _ => h.unmarked hd (hpos ▸ id)) h.stored hreaching
  | mark d write =>
    obtain ⟨hpos, hstep⟩ := of_then hstep nofun
    have hd : s.running = some d := h.running_eq (hpos ▸ trivial)
    split at hstep
    next hmutating =>
      obtain rfl : write = .done := hundisturbed
      cases hstep
      exact h.go hd (absurd hmutating) h.stored trivial
    · -- a read writes no marker
      cases hstep
      exact h.go hd (fun _ => h.unmarked hd (hpos ▸ id)) h.stored trivial
  | perform d =>
    obtain ⟨hpos, rfl⟩ := of_guard hstep
    have hd : s.running = some d := h.running_eq (hpos ▸ trivial)
    exact h.go hd (fun hread => h.unmarked hd (hpos ▸ hread)) h.stored trivial
  | performed d code =>
    obtain ⟨hpos, rfl⟩ := of_guard hstep
    have hd : s.running = some d := h.running_eq (hpos ▸ trivial)
    refine h.go hd (fun hunsettled => h.unmarked hd ?_) h.stored hreaching.2
    rw [hpos]
    exact fun hmutating => hunsettled (hreaching.1 hmutating)
  | settle d =>
    rw [step] at hstep
    split at hstep
    next code hpos =>
      have hd : s.running = some d := h.running_eq (hpos ▸ trivial)
      have hcode : Answers (.ended code) := hpos ▸ h.pending d
      split at hstep
      next hunsettled =>
        cases hstep
        refine h.go hd (fun _ => ?_) h.stored (not_unknown_result hcode)
        refine h.unmarked hd ?_
        rw [hpos]
        exact fun hc => Bool.false_ne_true (hc.symm.trans hunsettled)
      · cases hstep
        exact h.go hd (absurd trivial) h.stored ⟨hcode, not_unknown_result hcode⟩
    · cases hstep
  | store d write =>
    rw [step] at hstep
    split at hstep
    next code a hpos =>
      have ha : Answers (.storing code a) := hpos ▸ h.pending d
      obtain rfl : write = .done := hundisturbed
      cases hstep
      exact h.go (h.running_eq (hpos ▸ trivial)) (absurd trivial)
        (fun heq => ha.1 (Option.some.inj heq)) ha.2
    · cases hstep
  | remove d removed =>
    rw [step] at hstep
    split at hstep
    next a hpos =>
      have ha : Answers (.removing a) := hpos ▸ h.pending d
      obtain rfl : removed = true := hundisturbed
      cases hstep
      exact h.go (h.running_eq (hpos ▸ trivial)) (fun _ => rfl) h.stored ha
    · cases hstep
  | finish d =>
    rw [step] at hstep
    split at hstep
    next a hpos =>
      have ha : Answers (.finishing a) := hpos ▸ h.pending d
      cases hstep
      exact h.answer (h.running_eq (hpos ▸ trivial)) (hpos ▸ id) ha
    · cases hstep
  | panic d =>
    rw [step] at hstep
    split at hstep
    all_goals
      cases hstep
    all_goals
      next hpos => exact tidy_unsettled h (h.running_eq (hpos ▸ trivial)) hreaching
  | crash lost => exact hundisturbed.elim

theorem tidy_start : Tidy start where
  holder _ := .inl rfl
  marker _ := rfl
  stored := nofun
  pending _ := trivial
  answers _ _ ha := absurd ha List.not_mem_nil

/-- **Markers are truthful.**  Where no process stops and the journal is written, no marker is
left when no execution runs, and no delivery is answered with an unknown outcome. -/
theorem markers_are_truthful (events : List Event) (s : World)
    (htruthful : meets step Truthful events start) (hrun : run step events start = some s) :
    (s.running = none → s.journal.marker = none) ∧ ∀ late a, (late, a) ∈ s.answers → ¬Unknown a := by
  have htidy : Tidy s :=
    run_inv_of_meets (I := Tidy) tidy_step htruthful hrun tidy_start
  refine ⟨fun hnone => htidy.marker fun d hd => ?_, htidy.answers⟩
  rw [hnone] at hd
  cases hd

instance decidableTruthful (e : Event) (s : World) : Decidable (Truthful e s) := by
  cases e <;> unfold Truthful Undisturbed Reaching <;> infer_instance

/-- An execution whose operation ends with the code. -/
def endsWith (code : Code) : List Event :=
  [.deliver 0 1 true, .lookup 0, .inFlight 0, .mark 0 .done, .perform 0, .performed 0 code, .settle 0]

/-- A success, and a second delivery that is answered from the journal. -/
theorem markers_are_truthful_success :
    let events := endsWith (.other 0) ++ [.store 0 .done, .remove 0 true, .finish 0, .deliver 1 2 true,
      .lookup 1]
    ∃ s, run step events start = some s ∧ s.running = none ∧ s.journal.marker = none ∧
      s.answers = [(true, .stored (.other 0)), (false, .result (.other 0))] := by
  intro events
  refine ⟨_, rfl, rfl, ?_, rfl⟩
  exact (markers_are_truthful events _ (by decide) rfl).1 rfl

/-- The helper refuses the request as locked: the marker is left behind, and the next delivery
is answered with an unknown outcome. -/
theorem busy_leaves_marker :
    ∃ s, run step (endsWith .resourceBusy ++ [.finish 0]) start = some s ∧ s.running = none ∧
      s.journal.marker = some 1 ∧ (run step
        [.deliver 1 2 true, .lookup 1, .inFlight 1, .store 1 .done, .remove 1 true, .finish 1] s).map
          answers = some [(true, .outcomeUnknown), (false, .result .resourceBusy)] := by
  exact ⟨_, rfl, rfl, rfl, rfl⟩

end World

end Flotestro.Agent
