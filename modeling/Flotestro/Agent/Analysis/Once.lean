import Flotestro.Agent.Model.Execute
import Flotestro.Library.Runs

/-!
# At most once for a key

The marker is down before the helper is asked, and leaves only when the result is down, so the journal
has one of them from then on, whatever crashes.  An execution that finds neither is the first, and no
other one runs beside it.
-/

set_option autoImplicit false

namespace Flotestro.Agent

open Library

/-- The answers for a delivery that comes after the host was asked. -/
def Answer.Repeats : Answer → Prop
  | .stored _ | .outcomeUnknown | .inProgress => True
  | .result _ | .canceled | .panicked => False

namespace World

variable {s s' : World} {e : Event} {d : Nat}

/-- The journal knows that the host was asked, and a crash does not change that. -/
def Recorded (j : Journal) : Prop :=
  (j.marker ≠ none ∧ j.markerSynced = true) ∨ (j.result ≠ none ∧ j.resultSynced = true)

/-- What is known at a place of `Execute`. -/
def Known (j : Journal) (performs : Nat) (late mutating : Bool) : Position → Prop
  | .idle | .claimed | .returned => True
  | .lookedUp => j.result = none
  | .fresh => j.result = none ∧ j.marker = none ∧ late = false
  | .marked => j.result = none ∧ late = false ∧ performs = 0 ∧
      (mutating = true → j.marker ≠ none ∧ j.markerSynced = true)
  | .performing | .ended _ => j.result = none ∧ late = false
  | .storing _ a => j.result = none ∧ (late = true → a.Repeats)
  | .removing a => (j.result ≠ none ∧ j.resultSynced = true) ∧ (late = true → a.Repeats)
  | .finishing a => late = true → a.Repeats

structure Inv (s : World) : Prop where
  holder : ∀ d, s.pos d = .idle ∨ s.pos d = .returned ∨ s.running = some d
  known : ∀ d, Known s.journal s.performs (s.executions d).late (s.executions d).mutating (s.pos d)
  recorded : 0 < s.performs → Recorded s.journal
  once : s.performs ≤ 1
  late : ∀ d, (s.executions d).late = true → 0 < s.performs
  answers : ∀ a, (true, a) ∈ s.answers → a.Repeats

theorem Inv.running_eq (h : Inv s) {p : Position} (hpos : s.pos d = p) (hidle : p ≠ .idle)
    (hreturned : p ≠ .returned) : s.running = some d := by
  rcases h.holder d with hp | hp | hp
  · exact absurd (hpos.symm.trans hp) hidle
  · exact absurd (hpos.symm.trans hp) hreturned
  · exact hp

theorem Inv.known_at (h : Inv s) {p : Position} (hpos : s.pos d = p) :
    Known s.journal s.performs (s.executions d).late (s.executions d).mutating p :=
  hpos ▸ h.known d

/-- An execution that does not hold the key is over or has not begun. -/
theorem Inv.known_other (h : Inv s) (hd : s.running = some d) {f : Nat} (hne : f ≠ d) (j : Journal)
    (n : Nat) (late mutating : Bool) : Known j n late mutating (s.pos f) := by
  rcases h.holder f with hp | hp | hp
  · rw [hp]
    trivial
  · rw [hp]
    trivial
  · exact absurd (Option.mem_unique hp hd) hne

theorem pos_setExecution (s : World) (d f : Nat) (x : Execution) :
    (s.setExecution d x).pos f = if f = d then x.position else s.pos f := by
  unfold setExecution pos
  dsimp only
  split <;> rfl

theorem pos_move (s : World) (d f : Nat) (p : Position) :
    (s.move d p).pos f = if f = d then p else s.pos f := pos_setExecution s d f _

section

variable (h : ∀ f, s.pos f = .idle ∨ s.pos f = .returned ∨ s.running = some f)
  (hd : s.running = some d)

include h hd

theorem holder_move (p : Position) (f : Nat) :
    (s.move d p).pos f = .idle ∨ (s.move d p).pos f = .returned ∨ s.running = some f := by
  rw [pos_move]
  by_cases hf : f = d
  · rw [hf]
    exact .inr (.inr hd)
  · rw [if_neg hf]
    exact h f

theorem holder_answer (f : Nat) :
    (s.move d .returned).pos f = .idle ∨ (s.move d .returned).pos f = .returned ∨ none = some f := by
  rw [pos_move]
  split
  · exact .inr (.inl rfl)
  next hf =>
  rcases h f with hp | hp | hp
  · exact .inl hp
  · exact .inr (.inl hp)
  · exact absurd (Option.mem_unique hp hd) hf

end

theorem execution_move (s : World) (d f : Nat) (p : Position) :
    ((s.move d p).executions f).late = (s.executions f).late ∧
      ((s.move d p).executions f).mutating = (s.executions f).mutating := by
  unfold move setExecution
  dsimp only
  split
  next hf =>
    rw [hf]
    exact ⟨rfl, rfl⟩
  · exact ⟨rfl, rfl⟩

section
variable (h : Inv s) (hd : s.running = some d)
include h hd

theorem Inv.go (p : Position) (j : Journal) (n : Nat)
    (hknown : Known j n (s.executions d).late (s.executions d).mutating p)
    (hrecorded : 0 < n → Recorded j) (honce : n ≤ 1) (hle : s.performs ≤ n) :
    Inv { s.move d p with journal := j, performs := n } where
  holder := holder_move h.holder hd p
  known f := by
    change Known j n ((s.move d p).executions f).late ((s.move d p).executions f).mutating
      ((s.move d p).pos f)
    rw [(execution_move s d f p).1, (execution_move s d f p).2, pos_move]
    split
    next hf =>
      rw [hf]
      exact hknown
    next hf => exact h.known_other hd hf j n _ _
  recorded := hrecorded
  once := honce
  late f hf := Nat.lt_of_lt_of_le (h.late f ((execution_move s d f p).1 ▸ hf)) hle
  answers := h.answers

/-- An execution goes on and writes to the journal. -/
theorem Inv.writes {p : Position} {j : Journal}
    (hknown : Known j s.performs (s.executions d).late (s.executions d).mutating p)
    (hrecorded : 0 < s.performs → Recorded j) : Inv { s.move d p with journal := j } :=
  h.go hd p j s.performs hknown hrecorded h.once (Nat.le_refl _)

theorem Inv.goes {p : Position}
    (hknown : Known s.journal s.performs (s.executions d).late (s.executions d).mutating p) :
    Inv (s.move d p) :=
  h.writes hd hknown h.recorded

theorem Inv.answer {a : Answer}
    (ha : (s.executions d).late = true → a.Repeats) : Inv (s.answer d a) where
  __ := h.goes hd (p := .returned) trivial
  holder := holder_answer h.holder hd
  answers b hb := by
    rcases List.mem_cons.mp hb with hb | hb
    · obtain ⟨hlate, rfl⟩ := Prod.mk.inj hb
      exact ha hlate.symm
    · exact h.answers b hb

end

/-- A delivery that does not wait: its execution takes the key or is answered at once. -/
theorem Inv.arrive (h : Inv s) {p : Position} (hp : p = .claimed ∨ p = .returned)
    (attempt : Nat) (mutating : Bool) {running : Option Nat} {answers : List (Bool × Answer)}
    (hrunning : p = .claimed → s.running = none ∧ running = some d)
    (hreturned : p = .returned → running = s.running)
    (hanswers : ∀ a, (true, a) ∈ answers → a.Repeats) :
    Inv { s.setExecution d ⟨attempt, mutating, 0 < s.performs, p⟩ with
      running := running, answers := answers } := by
  have hpos := fun f => pos_setExecution s d f ⟨attempt, mutating, 0 < s.performs, p⟩
  have hother : ∀ f, f ≠ d →
      (s.setExecution d ⟨attempt, mutating, 0 < s.performs, p⟩).executions f = s.executions f :=
    fun f hf => if_neg hf
  refine ⟨fun f => ?_, fun f => ?_, h.recorded, h.once, fun f hf => ?_, hanswers⟩
  · change (s.setExecution d _).pos f = .idle ∨ (s.setExecution d _).pos f = .returned ∨ running = some f
    rw [hpos]
    split
    next hf =>
      rw [hf]
      rcases hp with hp | hp
      · exact .inr (.inr (hrunning hp).2)
      · exact .inr (.inl hp)
    · rcases hp with hp | hp
      · have hnone := h.holder f
        rw [(hrunning hp).1] at hnone
        exact hnone.imp_right fun hr => .inl (hr.resolve_right nofun)
      · rw [hreturned hp]
        exact h.holder f
  · change Known s.journal s.performs ((s.setExecution d _).executions f).late
      ((s.setExecution d _).executions f).mutating ((s.setExecution d _).pos f)
    rw [hpos]
    split
    · rcases hp with hp | hp <;> rw [hp] <;> trivial
    next hf =>
      rw [hother f hf]
      exact h.known f
  · by_cases hfd : f = d
    · rw [hfd] at hf
      have hself : (s.setExecution d ⟨attempt, mutating, 0 < s.performs, p⟩).executions d =
          ⟨attempt, mutating, 0 < s.performs, p⟩ := if_pos rfl
      rw [hself] at hf
      exact of_decide_eq_true hf
    · rw [hother f hfd] at hf
      exact h.late f hf

theorem recorded_crash {j : Journal} (h : Recorded j) (lost : Journal.Lost) : Recorded (j.crash lost) := by
  rcases h with ⟨hmarker, hsynced⟩ | ⟨hresult, hsynced⟩
  · obtain ⟨m, hm⟩ := Option.ne_none_iff_exists'.mp hmarker
    refine .inl ⟨?_, hsynced⟩
    simp [Journal.crash, hm, hsynced]
  · refine .inr ⟨?_, hsynced⟩
    simpa [Journal.crash, hsynced] using hresult

theorem Inv.crash (h : Inv s) (lost : Journal.Lost) (hstep : step (.crash lost) s = some s') : Inv s' := by
  cases hstep
  have hpos : ∀ f, (if (s.executions f).position = .idle then s.executions f
      else { s.executions f with position := .returned }).position = .idle ∨
      (if (s.executions f).position = .idle then s.executions f
      else { s.executions f with position := .returned }).position = .returned := by
    intro f
    split
    next hidle => exact .inl hidle
    · exact .inr rfl
  refine ⟨fun f => (hpos f).imp_right .inl, fun f => ?_, fun hp => recorded_crash (h.recorded hp) lost,
    h.once, fun f hf => ?_, h.answers⟩
  · rcases hpos f with hp | hp <;> simp only [pos, hp] <;> trivial
  · apply h.late f
    dsimp only at hf
    split at hf <;> exact hf

/-- No cancel reaches an attempt before it is delivered. -/
def Uncanceled : Event → World → Prop
  | .refuseCanceled _, _ => False
  | _, _ => True

section
variable (h : Inv s)
include h

theorem inv_lookup (hstep : step (.lookup d) s = some s') : Inv s' := by
  obtain ⟨hpos, hstep⟩ := of_then hstep nofun
  have hd := h.running_eq hpos nofun nofun
  split at hstep
  next code hresult =>
    cases hstep
    exact h.answer hd fun _ => trivial
  next hresult =>
    cases hstep
    exact h.goes hd hresult

theorem inv_inFlight (hstep : step (.inFlight d) s = some s') : Inv s' := by
  obtain ⟨hpos, hstep⟩ := of_then hstep nofun
  have hd := h.running_eq hpos nofun nofun
  have hresult : s.journal.result = none := h.known_at hpos
  split at hstep
  next m hmarker =>
    cases hstep
    exact h.goes hd ⟨hresult, fun _ => trivial⟩
  next hmarker =>
    cases hstep
    refine h.goes hd ⟨hresult, hmarker, ?_⟩
    -- a journal with neither a result nor a marker knows of no execution
    rw [← Bool.not_eq_true]
    intro hlate
    rcases h.recorded (h.late d hlate) with hr | hr
    · exact hr.1 hmarker
    · exact hr.1 hresult

theorem inv_mark {write : Write} (hstep : step (.mark d write) s = some s') : Inv s' := by
  obtain ⟨hpos, hstep⟩ := of_then hstep nofun
  have hd := h.running_eq hpos nofun nofun
  obtain ⟨hresult, hmarker, hlate⟩ := h.known_at hpos
  have hnone : s.performs = 0 := by
    refine Nat.eq_zero_of_not_pos fun hp => ?_
    rcases h.recorded hp with hr | hr
    · exact hr.1 hmarker
    · exact hr.1 hresult
  have hunperformed : 0 < s.performs → Recorded (s.journal.markInFlight (s.executions d).attempt write) :=
    fun hp => absurd hnone (Nat.pos_iff_ne_zero.mp hp)
  have hkept : (s.journal.markInFlight (s.executions d).attempt write).result = none := by
    cases write <;> exact hresult
  split at hstep
  next hmutating =>
    split at hstep
    next hdone =>
      cases hstep
      refine h.writes hd ⟨hkept, hlate, hnone, fun _ => ?_⟩ hunperformed
      rw [hdone]
      exact ⟨nofun, rfl⟩
    · cases hstep
      exact h.writes hd ⟨hkept, hlate⟩ hunperformed
  next hread =>
    cases hstep
    exact h.goes hd ⟨hresult, hlate, hnone, fun hm => absurd hm hread⟩

theorem inv_perform (hstep : step (.perform d) s = some s') : Inv s' := by
  obtain ⟨hpos, hstep⟩ := of_then hstep nofun
  have hd := h.running_eq hpos nofun nofun
  obtain ⟨hresult, hlate, hnone, hmarked⟩ := h.known_at hpos
  cases hstep
  refine h.go hd .performing s.journal _ ⟨hresult, hlate⟩ (fun hp => ?_) ?_ ?_
  · split at hp
    next hmutating => exact .inl (hmarked hmutating)
    · exact h.recorded hp
  · split <;> omega
  · split <;> omega

theorem inv_store {write : Write} (hstep : step (.store d write) s = some s') : Inv s' := by
  rw [step] at hstep
  split at hstep
  next code a hpos =>
    have hd := h.running_eq hpos nofun nofun
    obtain ⟨hresult, ha⟩ := h.known_at hpos
    -- before the write the marker is what the journal knows by
    have hrecorded : 0 < s.performs → Recorded (s.journal.writeResult code write) := by
      intro hp
      have hmarker := (h.recorded hp).resolve_right fun hr => hr.1 hresult
      cases write <;> exact .inl hmarker
    split at hstep
    next hdone =>
      cases hstep
      refine h.writes hd ⟨?_, ha⟩ hrecorded
      rw [hdone]
      exact ⟨nofun, rfl⟩
    · cases hstep
      exact h.writes hd ha hrecorded
  · cases hstep

theorem inv_remove {removed : Bool} (hstep : step (.remove d removed) s = some s') : Inv s' := by
  rw [step] at hstep
  split at hstep
  next a hpos =>
    have hd := h.running_eq hpos nofun nofun
    obtain ⟨hresult, ha⟩ := h.known_at hpos
    cases removed with
    | true =>
      cases hstep
      exact h.writes hd ha (fun _ => .inr hresult)
    | false =>
      cases hstep
      exact h.goes hd ha
  · cases hstep

theorem inv_settle (hstep : step (.settle d) s = some s') : Inv s' := by
  rw [step] at hstep
  split at hstep
  next code hpos =>
    have hd := h.running_eq hpos nofun nofun
    obtain ⟨hresult, hlate⟩ := h.known_at hpos
    have hearly : (s.executions d).late = true → (Answer.result code).Repeats :=
      fun hl => absurd hl (by rw [hlate]; exact Bool.false_ne_true)
    split at hstep
    · cases hstep
      exact h.goes hd hearly
    · cases hstep
      exact h.goes hd ⟨hresult, hearly⟩
  · cases hstep

/-- A run that panics has passed the journal, so it is the first of its key. -/
theorem known_run
    (hpos : s.pos d = .fresh ∨ s.pos d = .marked ∨ s.pos d = .performing ∨ ∃ code, s.pos d = .ended code) :
    s.journal.result = none ∧ (s.executions d).late = false := by
  rcases hpos with hpos | hpos | hpos | ⟨code, hpos⟩
  · exact ⟨(h.known_at hpos).1, (h.known_at hpos).2.2⟩
  · exact ⟨(h.known_at hpos).1, (h.known_at hpos).2.1⟩
  · exact h.known_at hpos
  · exact h.known_at hpos

theorem inv_unsettled (hd : s.running = some d)
    (hpos : s.pos d = .fresh ∨ s.pos d = .marked ∨ s.pos d = .performing ∨ ∃ code, s.pos d = .ended code) :
    Inv (s.unsettled d) := by
  obtain ⟨hresult, hlate⟩ := known_run h hpos
  have hearly : (s.executions d).late = true → Answer.panicked.Repeats :=
    fun hl => absurd hl (by rw [hlate]; exact Bool.false_ne_true)
  unfold unsettled
  split
  · exact h.goes hd ⟨hresult, hearly⟩
  · exact h.goes hd hearly

theorem inv_panic (hstep : step (.panic d) s = some s') : Inv s' := by
  rw [step] at hstep
  split at hstep
  next hpos =>
    cases hstep
    exact inv_unsettled h (h.running_eq hpos nofun nofun) (.inl hpos)
  next hpos =>
    cases hstep
    exact inv_unsettled h (h.running_eq hpos nofun nofun) (.inr (.inl hpos))
  next hpos =>
    cases hstep
    exact inv_unsettled h (h.running_eq hpos nofun nofun) (.inr (.inr (.inl hpos)))
  next code hpos =>
    cases hstep
    exact inv_unsettled h (h.running_eq hpos nofun nofun) (.inr (.inr (.inr ⟨code, hpos⟩)))
  · cases hstep

end

theorem inv_step (hstep : step e s = some s') (huncanceled : Uncanceled e s) (h : Inv s) : Inv s' := by
  cases e with
  | deliver d attempt mutating =>
    obtain ⟨-, hstep⟩ := of_then hstep nofun
    split at hstep
    next hfree =>
      cases hstep
      exact h.arrive (.inl rfl) attempt mutating (fun _ => ⟨hfree, rfl⟩) nofun h.answers
    · cases hstep
      refine h.arrive (.inr rfl) attempt mutating nofun (fun _ => rfl) fun a ha => ?_
      rcases List.mem_cons.mp ha with ha | ha
      · obtain ⟨-, rfl⟩ := Prod.mk.inj ha
        trivial
      · exact h.answers a ha
  | refuseCanceled d => exact huncanceled.elim
  | lookup d => exact inv_lookup h hstep
  | inFlight d => exact inv_inFlight h hstep
  | refuse d code =>
    obtain ⟨hpos, hstep⟩ := of_then hstep nofun
    obtain ⟨hresult, -, hlate⟩ := h.known_at hpos
    cases hstep
    exact h.goes (h.running_eq hpos nofun nofun) ⟨hresult, hlate⟩
  | mark d write => exact inv_mark h hstep
  | perform d => exact inv_perform h hstep
  | performed d code =>
    obtain ⟨hpos, hstep⟩ := of_then hstep nofun
    obtain ⟨hresult, hlate⟩ := h.known_at hpos
    cases hstep
    exact h.goes (h.running_eq hpos nofun nofun) ⟨hresult, hlate⟩
  | settle d => exact inv_settle h hstep
  | store d write => exact inv_store h hstep
  | remove d removed => exact inv_remove h hstep
  | finish d =>
    rw [step] at hstep
    split at hstep
    next a hpos =>
      cases hstep
      exact h.answer (h.running_eq hpos nofun nofun) (h.known_at hpos)
    · cases hstep
  | panic d => exact inv_panic h hstep
  | crash lost => exact h.crash lost hstep

theorem inv_start : Inv start where
  holder _ := .inl rfl
  known _ := trivial
  recorded hp := nomatch hp
  once := Nat.zero_le _
  late _ hf := nomatch hf
  answers _ ha := nomatch ha

/-- **At most once for a key.**  In every run of deliveries, with panics, failing writes and
crashes at any point, the host is asked at most once, and a delivery that comes later is answered with
the stored result, with an unknown outcome or as in progress. -/
theorem performed_at_most_once (events : List Event) (s : World)
    (huncanceled : meets step Uncanceled events start) (hrun : run step events start = some s) :
    s.performs ≤ 1 ∧ ∀ a, (true, a) ∈ s.answers → a.Repeats := by
  have hinv : Inv s :=
    run_inv_of_meets (I := Inv) inv_step huncanceled hrun inv_start
  exact ⟨hinv.once, hinv.answers⟩

/-- The first delivery goes down while the host works on it; the second one finds its marker,
and the third one the result that the second one left. -/
def restarted : List Event :=
  [.deliver 0 1 true, .lookup 0, .inFlight 0, .mark 0 .done, .perform 0, .crash ⟨true, true, true⟩,
    .deliver 1 2 true, .lookup 1, .inFlight 1, .store 1 .done, .remove 1 true, .finish 1,
    .deliver 2 3 true, .lookup 2]

instance decidableUncanceled : ∀ e s, Decidable (Uncanceled e s)
  | .refuseCanceled _, _ => .isFalse id
  | .deliver _ _ _, _ | .lookup _, _ | .inFlight _, _ | .refuse _ _, _ | .mark _ _, _ | .perform _, _
  | .performed _ _, _ | .settle _, _ | .store _ _, _ | .remove _ _, _ | .finish _, _ | .panic _, _
  | .crash _, _ => .isTrue trivial

theorem performed_at_most_once_restarted : ∃ s, run step restarted start = some s ∧ s.performs = 1 ∧
      s.answers = [(true, .stored .outcomeUnknown), (true, .outcomeUnknown)] ∧
      s.performs ≤ 1 ∧ ∀ a, (true, a) ∈ s.answers → a.Repeats := by
  refine ⟨_, rfl, rfl, rfl, ?_⟩
  exact performed_at_most_once restarted _ (by decide) rfl

/-- **No change goes unrecorded.**  In every such run, once the host was asked the journal holds the
marker or the result, whatever a crash takes at that moment; and one execution at most is at the host. -/
theorem performed_is_recorded (events : List Event) (s : World)
    (huncanceled : meets step Uncanceled events start) (hrun : run step events start = some s) :
    (0 < s.performs → ∀ lost, Recorded (s.journal.crash lost)) ∧
      ∀ d f, s.pos d = .performing → s.pos f = .performing → d = f := by
  have hinv : Inv s := run_inv_of_meets inv_step huncanceled hrun inv_start
  refine ⟨fun hperforms lost => ?_, fun d f hd hf => ?_⟩
  · exact (inv_step (e := .crash lost) rfl trivial hinv).recorded hperforms
  · have hrunning := hinv.running_eq hf nofun nofun
    exact Option.mem_unique (hinv.running_eq hd nofun nofun) hrunning

theorem performed_is_recorded_restarted : ∃ s, run step restarted start = some s ∧
      ∀ lost, Recorded (s.journal.crash lost) :=
  ⟨_, rfl, (performed_is_recorded restarted _ (by decide) rfl).1 (by decide)⟩

end World

end Flotestro.Agent
