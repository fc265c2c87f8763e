import Flotestro.Library.Runs
import Flotestro.Agent.Model.Phases

/-!
# The cancel protocol

A cancel that finds an attempt accepted or awaiting a lock marks it and answers that nothing started; the
executor asks for the mark and moves the phase in two critical sections.  A cancel between the two is
answered so although the attempt then starts.  Two more ways lead there: the refusals of attempts that
were not delivered are thrown away when they are too many, and the entry of an attempt that is over is
trimmed.  Where neither happens, every other cancel that is answered so is the end of the attempt, and
none is after the attempt has asked the host.
-/

set_option autoImplicit false

namespace Flotestro.Agent

open Library List

namespace TaskPhases

variable {p : TaskPhases} {taskID : Nat} {entry : TaskPhase}

@[simp] theorem setEntry_self (p : TaskPhases) (taskID : Nat) (e : Option TaskPhase) :
    (p.setEntry taskID e).entries taskID = e :=
  if_pos rfl

theorem setEntry_of_ne {id : Nat} (hne : taskID ≠ id) (e : Option TaskPhase) :
    (p.setEntry id e).entries taskID = p.entries taskID :=
  if_neg hne

theorem droppable_of_entry (h : p.entries taskID = some entry) : p.droppable taskID =
      (decide (entry.phase = .done) || decide (entry.phase = .inFlightBeforeRestart)) := by
  rw [droppable, h]

/-- **An entry of a task under way is never trimmed.** -/
theorem trimLoop_entry (fuel : Nat) (h : p.entries taskID = some entry)
    (hkeep : p.droppable taskID = false) : (trimLoop fuel p).entries taskID = some entry := by
  induction fuel generalizing p with
  | zero => exact h
  | succ fuel ih =>
    rw [trimLoop]
    split
    · split
      next other hfind =>
        have hne : taskID ≠ other := fun heq => by
          have := find?_some hfind
          rw [← heq, hkeep] at this
          cases this
        have hentry : (p.setEntry other none).entries taskID = some entry := (if_neg hne).trans h
        refine ih hentry ?_
        rw [droppable_of_entry h] at hkeep
        exact (droppable_of_entry hentry).trans hkeep
      · exact h
    · exact h

/-- Trimming changes an entry in no other way than to drop it. -/
theorem trimLoop_same_or_none (fuel : Nat) (p : TaskPhases) (taskID : Nat) :
    (trimLoop fuel p).entries taskID = p.entries taskID ∨ (trimLoop fuel p).entries taskID = none := by
  induction fuel generalizing p with
  | zero => exact .inl rfl
  | succ fuel ih =>
    rw [trimLoop]
    split
    · split
      next other hfind =>
        rcases ih { p.setEntry other none with order := p.order.eraseP p.droppable } with h | h
        · by_cases hne : taskID = other
          · rw [h, hne]
            exact .inr (setEntry_self p other none)
          · exact .inl (h.trans (if_neg hne))
        · exact .inr h
      · exact .inl rfl
    · exact .inl rfl

theorem trimLoop_refused (fuel : Nat) (p : TaskPhases) : (trimLoop fuel p).refused = p.refused := by
  induction fuel generalizing p with
  | zero => rfl
  | succ fuel ih =>
    rw [trimLoop]
    split
    · split
      · exact ih _
      · rfl
    · rfl

theorem droppable_mono {q : TaskPhases} (hentry : q.entries taskID = p.entries taskID ∨
    q.entries taskID = none) (h : p.droppable taskID = true) : q.droppable taskID = true := by
  unfold droppable at h ⊢
  rcases hentry with hentry | hentry <;> rw [hentry]
  exact h

/-- Ahead of the attempt in the order stand as many entries that may go as are too many, with so
many more to come. -/
def Sheltered (p : TaskPhases) (taskID : Nat) (mayGo : Nat → Bool) (more : Nat) : Prop :=
  ∃ ahead behind, p.order = ahead ++ behind ∧ taskID ∉ ahead ∧
    p.order.length + more ≤ maxRememberedPhases + ahead.countP mayGo

/-- Each round of the trim takes one of the entries ahead, and makes the order as much shorter. -/
theorem trimLoop_sheltered (fuel : Nat) (h : Sheltered p taskID p.droppable 0) :
    (trimLoop fuel p).entries taskID = p.entries taskID := by
  induction fuel generalizing p with
  | zero => rfl
  | succ fuel ih =>
    rw [trimLoop]
    split
    next hlong =>
      obtain ⟨ahead, behind, horder, hnot, hroom⟩ := h
      have hover : ∃ id ∈ ahead, p.droppable id = true := countP_pos_iff.mp (by omega)
      obtain ⟨id, hid, hdrop⟩ := hover
      obtain ⟨other, front, back, hfront, hother, rfl, -⟩ := exists_of_eraseP hid hdrop
      have hne : taskID ≠ other := fun heq => hnot (by simp [heq])
      have hfind : p.order.find? p.droppable = some other := by
        rw [horder, append_assoc]
        exact find?_eq_some_iff_append.mpr
          ⟨hother, front, back ++ behind, rfl, fun x hx => by simp [hfront x hx]⟩
      have herase : p.order.eraseP p.droppable = (front ++ back) ++ behind := by
        rw [horder, append_assoc, cons_append, eraseP_append_right _ hfront,
          eraseP_cons_of_pos hother, append_assoc]
      let q : TaskPhases := { p.setEntry other none with order := p.order.eraseP p.droppable }
      have hentry : ∀ x, q.entries x = p.entries x ∨ q.entries x = none := by
        intro x
        by_cases hx : x = other
        · rw [hx]
          exact .inr (setEntry_self p other none)
        · exact .inl (if_neg hx)
      have hcount : (front ++ back).countP p.droppable ≤ (front ++ back).countP q.droppable :=
        countP_mono_left fun x _ => droppable_mono (hentry x)
      have hlength : q.order.length = ((front ++ back) ++ behind).length := congrArg List.length herase
      rw [hfind]
      refine (ih (p := q) ⟨front ++ back, behind, herase, fun hmem => hnot ?_, ?_⟩).trans (if_neg hne)
      · rcases mem_append.mp hmem with hmem | hmem
        · exact mem_append_left _ hmem
        · exact mem_append_right _ (mem_cons_of_mem other hmem)
      · rw [horder] at hroom
        simp only [length_append, length_cons, countP_append,
          countP_cons_of_pos hother] at hroom hcount hlength ⊢
        omega
    · rfl

/-- The trim after one more came into the order: an entry that is lost was over, and not sheltered. -/
theorem trim_append {id : Nat} (hne : taskID ≠ id) (entry : TaskPhase) (refused : List Nat) :
    let q : TaskPhases :=
      { p.setEntry id (some entry) with order := p.order ++ [id], refused := refused }
    q.trim.entries taskID = p.entries taskID ∨ q.trim.entries taskID = none ∧
      p.droppable taskID = true ∧ ¬Sheltered p taskID (fun x => p.droppable x && x != id) 1 := by
  intro q
  have hentry : ∀ x, x ≠ id → q.entries x = p.entries x := fun x hx => if_neg hx
  rcases trimLoop_same_or_none q.order.length q taskID with h | h
  · exact .inl (h.trans (hentry taskID hne))
  by_cases hsheltered : Sheltered p taskID (fun x => p.droppable x && x != id) 1
  · obtain ⟨ahead, behind, horder, hnot, hroom⟩ := hsheltered
    refine .inl ((trimLoop_sheltered _ ⟨ahead, behind ++ [id], ?_, hnot, ?_⟩).trans (hentry taskID hne))
    · change p.order ++ [id] = _
      rw [horder, append_assoc]
    · have hcount : ahead.countP (fun x => p.droppable x && x != id) ≤ ahead.countP q.droppable := by
        refine countP_mono_left fun x _ hx => ?_
        rw [Bool.and_eq_true, bne_iff_ne] at hx
        exact droppable_mono (.inl (hentry x hx.2)) hx.1
      have hlength : q.order.length = p.order.length + 1 := length_append
      omega
  · cases hkeep : p.droppable taskID with
    | true => exact .inr ⟨h, rfl, hsheltered⟩
    | false =>
      left
      cases hold : p.entries taskID with
      | none =>
        rw [droppable, hold] at hkeep
        cases hkeep
      | some old =>
        have hq : q.entries taskID = some old := (hentry taskID hne).trans hold
        refine trimLoop_entry _ hq ?_
        rw [droppable_of_entry hq, ← droppable_of_entry hold, hkeep]

/-- A critical section of another attempt does not push the entry of this one out. -/
def Keeps (p : TaskPhases) (taskID id : Nat) : Call → Prop
  | .enter _ => Sheltered p taskID (fun x => p.droppable x && x != id) 1
  | .finish _ => p.entries id = none → Sheltered p taskID (fun x => p.droppable x && x != id) 1
  | .move _ | .cancel _ => True

/-- A critical section of another attempt does not throw the refusals away. -/
def Recalls (p : TaskPhases) (id : Nat) : Call → Prop
  | .cancel _ => p.entries id = none → (p.refused.insert id).length ≤ maxRememberedPhases
  | .enter _ | .move _ | .finish _ => True

/-- **What another attempt does to the entry**: nothing, or it pushes out the entry of an attempt
that is over. -/
theorem call_entry {id : Nat} (hne : taskID ≠ id) (c : Call) :
    (p.call id c).entries taskID = p.entries taskID ∨
      (p.call id c).entries taskID = none ∧ p.droppable taskID = true ∧ ¬Keeps p taskID id c := by
  cases c with
  | enter key => exact trim_append hne _ _
  | move phase =>
    left
    rw [call, move]
    split
    · exact setEntry_of_ne hne _
    · rfl
  | finish hash =>
    rw [call, finish]
    split
    · exact .inl (setEntry_of_ne hne _)
    next hnone =>
      have htrim := trim_append (p := p) hne ⟨0, .accepted, false, false, none⟩ p.refused
      rw [setEntry_of_ne hne]
      exact htrim.imp_right fun ⟨hlost, hover, hsheltered⟩ =>
        ⟨hlost, hover, fun hkeeps => hsheltered (hkeeps hnone)⟩
  | cancel registered =>
    left
    rw [call, answer]
    split
    · rfl
    · split
      · rfl
      · exact setEntry_of_ne hne _
      · exact setEntry_of_ne hne _
      · split <;> rfl
      · rfl
      · rfl
      · rfl

/-- A refusal stays where the refusals are not thrown away. -/
theorem call_refused {id : Nat} (hne : taskID ≠ id) (c : Call) (h : taskID ∈ p.refused)
    (hrecalls : Recalls p id c) : taskID ∈ (p.call id c).refused := by
  cases c with
  | enter key =>
    change taskID ∈ (trimLoop _ _).refused
    rw [trimLoop_refused]
    exact (mem_erase_of_ne hne).mpr h
  | move phase =>
    rw [call, move]
    split <;> exact h
  | finish hash =>
    rw [call, finish]
    split
    · exact h
    · change taskID ∈ (trimLoop _ _).refused
      rw [trimLoop_refused]
      exact h
  | cancel registered =>
    rw [call, answer]
    split
    next hnone =>
      dsimp only
      rw [if_neg (Nat.not_lt.mpr (hrecalls hnone))]
      exact mem_insert_of_mem h
    · split
      · exact h
      · exact h
      · exact h
      · split <;> exact h
      · exact h
      · exact h
      · exact h

theorem enter_entry (p : TaskPhases) (taskID key : Nat) : (p.enter taskID key).1.entries taskID =
      some ⟨key, .accepted, true, p.refused.contains taskID, none⟩ := by
  refine trimLoop_entry _ (setEntry_self p taskID _) ?_
  exact droppable_of_entry (setEntry_self p taskID _)

theorem move_entry (h : p.entries taskID = some entry) (phase : Phase) :
    (p.move taskID phase).entries taskID = some { entry with phase := phase } := by
  rw [move, h]
  exact setEntry_self p taskID _

theorem finish_entry (h : p.entries taskID = some entry) (hash : Option Nat) :
    (p.finish taskID hash).entries taskID =
      some { entry with phase := .done, stop := false, resultHash := hash } := by
  rw [finish, h]
  exact setEntry_self p taskID _

theorem canceledBeforeStart_entry (h : p.entries taskID = some entry) :
    p.canceledBeforeStart taskID = entry.canceled := by
  rw [canceledBeforeStart, h]

def Pending (phase : Phase) : Prop := phase = .accepted ∨ phase = .awaitingLock

theorem answer_pending (h : p.entries taskID = some entry) (hpending : Pending entry.phase)
    (registered : Bool) :
    (p.answer taskID registered).1.entries taskID = some { entry with canceled := true } := by
  rw [answer, h]
  rcases hpending with hphase | hphase
  all_goals
    dsimp only
    rw [hphase]
    exact setEntry_self p taskID _

theorem answer_past (h : p.entries taskID = some entry) (hpast : ¬Pending entry.phase)
    (registered : Bool) :
    (p.answer taskID registered).1 = p ∧ (p.answer taskID registered).2.outcome ≠ .notStarted := by
  rw [answer, h]
  dsimp only
  split
  · exact ⟨rfl, nofun⟩
  next hphase => exact absurd (.inl hphase) hpast
  next hphase => exact absurd (.inr hphase) hpast
  · cases registered <;> exact ⟨rfl, nofun⟩
  · exact ⟨rfl, nofun⟩
  · exact ⟨rfl, nofun⟩
  · exact ⟨rfl, nofun⟩

theorem answer_unknown (h : p.entries taskID = none) (registered : Bool) :
    (p.answer taskID registered).1.entries taskID = none ∧
      taskID ∈ (p.answer taskID registered).1.refused := by
  rw [answer, h]
  refine ⟨h, ?_⟩
  change taskID ∈
    if maxRememberedPhases < (p.refused.insert taskID).length then [taskID] else p.refused.insert taskID
  split
  · exact mem_singleton_self taskID
  · exact mem_insert_self

end TaskPhases

/-! ## Runs of one attempt -/

namespace Attempt

open TaskPhases

variable {s s' : Attempt} {taskID : Nat} {e : CancelEvent}

/-- The phases of an entry that is not to be trimmed. -/
def Live (phase : Phase) : Prop := phase ≠ .done ∧ phase ≠ .inFlightBeforeRestart

/-- The phase of the attempt at each stage of its execution. -/
def StageOk : Stage → Phase → Prop
  | .undelivered, phase => phase = .done ∨ phase = .inFlightBeforeRestart
  | .entered, phase | .waiting, phase | .admitted, phase | .checked, phase => Pending phase
  | .moved, phase | .performing, phase => phase = .mutating ∨ phase = .started
  | .ended, phase => Live phase
  | .finished, phase => phase = .done

theorem live_of_stageOk {stage : Stage} {phase : Phase} (h : StageOk stage phase)
    (hdelivered : stage ≠ .undelivered) (hunder : stage ≠ .finished) : Live phase := by
  cases stage with
  | undelivered => exact absurd rfl hdelivered
  | finished => exact absurd rfl hunder
  | ended => exact h
  | entered | waiting | admitted | checked | moved | performing =>
    rcases h with rfl | rfl <;> exact ⟨nofun, nofun⟩

/-- No other attempt pushes the entry of this one out once it is over, and no cancel of another one
throws the refusal of this one away. -/
def Undropped (taskID : Nat) : CancelEvent → Attempt → Prop
  | .other id call, s => (s.stage = .finished → s.phases.Keeps taskID id call) ∧
      (taskID ∈ s.phases.refused → s.phases.Recalls id call)
  | _, _ => True

/-- The attempt has an entry from its delivery on, in a phase of its stage. -/
structure Inv (taskID : Nat) (s : Attempt) : Prop where
  known : s.stage ≠ .undelivered → ∃ entry, s.phases.entries taskID = some entry
  phase : ∀ entry, s.phases.entries taskID = some entry → StageOk s.stage entry.phase

theorem Inv.of_entry {entry : TaskPhase} (h : s.phases.entries taskID = some entry)
    (hok : StageOk s.stage entry.phase) : Inv taskID s where
  known _ := ⟨entry, h⟩
  phase other hother := by
    obtain rfl : entry = other := Option.mem_unique h hother
    exact hok

theorem Inv.entry (h : Inv taskID s) (hstage : s.stage ≠ .undelivered) :
    ∃ entry, s.phases.entries taskID = some entry ∧ StageOk s.stage entry.phase := by
  obtain ⟨entry, hentry⟩ := h.known hstage
  exact ⟨entry, hentry, h.phase entry hentry⟩

theorem not_pending_of_started {phase : Phase} (h : phase = .mutating ∨ phase = .started) :
    ¬Pending phase := by
  rcases h with rfl | rfl <;> exact fun hp => hp.elim nofun nofun

theorem not_pending_of_over {phase : Phase} (h : phase = .done ∨ phase = .inFlightBeforeRestart) :
    ¬Pending phase := by
  rcases h with rfl | rfl <;> exact fun hp => hp.elim nofun nofun

theorem Inv.cancel (h : Inv taskID s) (registered : Bool) :
    Inv taskID { s with phases := (s.phases.answer taskID registered).1 } := by
  cases hentry : s.phases.entries taskID with
  | none =>
    refine ⟨fun hstage => ?_, fun entry hother => ?_⟩
    · obtain ⟨entry, hknown⟩ := h.known hstage
      rw [hentry] at hknown
      cases hknown
    · rw [(answer_unknown hentry registered).1] at hother
      cases hother
  | some entry =>
    have hok := h.phase entry hentry
    by_cases hpending : Pending entry.phase
    · exact Inv.of_entry (answer_pending hentry hpending registered) hok
    · rw [(answer_past hentry hpending registered).1]
      exact h

/-- The attempts beside this one leave its entry, but for one of an earlier delivery. -/
theorem Inv.call_entry (h : Inv taskID s) {id : Nat} {call : Call}
    (hc : Undropped taskID (.other id call) s) (hne : taskID ≠ id) :
    (s.phases.call id call).entries taskID = s.phases.entries taskID ∨
      (s.phases.call id call).entries taskID = none ∧ s.stage = .undelivered := by
  refine (TaskPhases.call_entry hne call).imp_right fun ⟨hlost, hover, hpushed⟩ => ⟨hlost, ?_⟩
  by_contra hstage
  obtain ⟨entry, hentry, hok⟩ := h.entry hstage
  rw [droppable_of_entry hentry, Bool.or_eq_true, decide_eq_true_eq, decide_eq_true_eq] at hover
  by_cases hfinished : s.stage = .finished
  · exact hpushed (hc.1 hfinished)
  · have hlive := live_of_stageOk hok hstage hfinished
    exact hover.elim hlive.1 hlive.2

theorem Inv.other (h : Inv taskID s) {id : Nat} {call : Call}
    (hc : Undropped taskID (.other id call) s) (hne : taskID ≠ id) :
    Inv taskID { s with phases := s.phases.call id call } := by
  rcases h.call_entry hc hne with hsame | ⟨hnone, hstage⟩
  · refine ⟨fun hne => ?_, fun entry hentry => h.phase entry (hsame ▸ hentry)⟩
    obtain ⟨entry, hentry⟩ := h.known hne
    exact ⟨entry, hsame.trans hentry⟩
  · refine ⟨absurd hstage, fun entry hentry => ?_⟩
    rw [hnone] at hentry
    cases hentry

theorem Inv.goto (h : Inv taskID s) (hstage : s.stage ≠ .undelivered) {stage : Stage}
    (hnext : ∀ phase, StageOk s.stage phase → StageOk stage phase) :
    Inv taskID { s with stage := stage } := by
  obtain ⟨entry, hentry, hok⟩ := h.entry hstage
  exact Inv.of_entry hentry (hnext _ hok)

theorem Inv.ends (h : Inv taskID s) (hdelivered : s.stage ≠ .undelivered)
    (hunder : s.stage ≠ .finished) : Inv taskID { s with stage := .ended } :=
  h.goto hdelivered fun _ hok => live_of_stageOk hok hdelivered hunder

theorem inv_step (hstep : step taskID e s = some s') (hc : Undropped taskID e s) (h : Inv taskID s) :
    Inv taskID s' := by
  cases e with
  | other id call =>
    obtain ⟨hne, hstep⟩ := of_else hstep nofun
    cases hstep
    exact h.other hc (Ne.symm hne)
  | cancel registered =>
    cases hstep
    exact h.cancel registered
  | enter key =>
    obtain ⟨-, rfl⟩ := of_guard hstep
    refine Inv.of_entry (enter_entry s.phases taskID key) ?_
    split
    · exact ⟨nofun, nofun⟩
    · exact .inl rfl
  | check admits =>
    obtain ⟨hstage, hstep⟩ := of_then hstep nofun
    have hne : s.stage ≠ .undelivered := by rw [hstage]; exact nofun
    split at hstep
    · cases hstep
      exact h.ends hne (by rw [hstage]; exact nofun)
    · cases hstep
      refine h.goto hne fun phase hok => ?_
      rw [hstage] at hok
      cases admits <;> exact hok
  | await =>
    obtain ⟨hstage, rfl⟩ := of_guard hstep
    obtain ⟨entry, hentry, -⟩ := h.entry (by rw [hstage]; exact nofun)
    refine Inv.of_entry (move_entry hentry .awaitingLock) ?_
    rw [hstage]
    exact .inr rfl
  | admitted | perform =>
    obtain ⟨hstage, rfl⟩ := of_guard hstep
    exact h.goto (by rw [hstage]; exact nofun) fun phase hok => by rwa [hstage] at hok
  | recheck =>
    obtain ⟨hstage, rfl⟩ := of_guard hstep
    refine h.goto (by rw [hstage]; exact nofun) fun phase hok => ?_
    rw [hstage] at hok
    split
    · exact live_of_stageOk hok nofun nofun
    · exact hok
  | start mutating =>
    obtain ⟨hstage, rfl⟩ := of_guard hstep
    obtain ⟨entry, hentry, -⟩ := h.entry (by rw [hstage]; exact nofun)
    refine Inv.of_entry (move_entry hentry _) ?_
    cases mutating
    · exact .inr rfl
    · exact .inl rfl
  | performed =>
    obtain ⟨hstage, rfl⟩ := of_guard hstep
    exact h.ends (by rw [hstage]; exact nofun) (by rw [hstage]; exact nofun)
  | leave =>
    rw [step] at hstep
    split at hstep
    all_goals
      cases hstep
    all_goals
      next hstage => exact h.ends (by rw [hstage]; exact nofun) (by rw [hstage]; exact nofun)
  | finish hash =>
    obtain ⟨hstage, rfl⟩ := of_guard hstep
    obtain ⟨entry, hentry, -⟩ := h.entry (by rw [hstage]; exact nofun)
    exact Inv.of_entry (finish_entry hentry hash) rfl

theorem inv_run {events : List CancelEvent} (hc : meets (step taskID) (Undropped taskID) events s)
    (hrun : run (step taskID) events s = some s') (h : Inv taskID s) : Inv taskID s' :=
  run_inv_of_meets inv_step hc hrun h

/-! ## After the answer that nothing started -/

/-- The stages an attempt is past its last check for a cancel. -/
def PastCheck : Stage → Prop
  | .checked | .moved | .performing => True
  | .undelivered | .entered | .waiting | .admitted | .ended | .finished => False

/-- A cancel of the attempt is on record where the executor will ask for it. -/
def Refused (taskID : Nat) (s : Attempt) : Prop :=
  if s.stage = .undelivered then s.phases.entries taskID = none ∧ taskID ∈ s.phases.refused
  else ∃ entry, s.phases.entries taskID = some entry ∧ entry.canceled = true ∧ ¬PastCheck s.stage ∧
    entry.phase ≠ .mutating ∧ entry.phase ≠ .started

theorem Refused.of_entry {entry : TaskPhase} (hstage : s.stage ≠ .undelivered)
    (hentry : s.phases.entries taskID = some entry) (hcanceled : entry.canceled = true)
    (hcheck : ¬PastCheck s.stage) (hphase : entry.phase ≠ .mutating ∧ entry.phase ≠ .started) :
    Refused taskID s := by
  rw [Refused, if_neg hstage]
  exact ⟨entry, hentry, hcanceled, hcheck, hphase⟩

theorem Refused.entry (h : Refused taskID s) (hstage : s.stage ≠ .undelivered) :
    ∃ entry, s.phases.entries taskID = some entry ∧ entry.canceled = true ∧ ¬PastCheck s.stage ∧
      entry.phase ≠ .mutating ∧ entry.phase ≠ .started := by
  rwa [Refused, if_neg hstage] at h

/-- A cancel that is answered with `notStarted` is on record, unless it comes between the last
check of the executor and its move. -/
theorem refused_of_notStarted (h : Inv taskID s) {registered : Bool}
    (houtcome : s.cancelOutcome taskID registered = .notStarted) (hchecked : s.stage ≠ .checked) :
    Refused taskID { s with phases := (s.phases.answer taskID registered).1 } := by
  cases hentry : s.phases.entries taskID with
  | none =>
    have hstage : s.stage = .undelivered := by
      by_contra hne
      obtain ⟨entry, hknown⟩ := h.known hne
      rw [hentry] at hknown
      cases hknown
    rw [Refused, if_pos hstage]
    exact answer_unknown hentry registered
  | some entry =>
    have hok := h.phase entry hentry
    by_cases hpending : Pending entry.phase
    · have hphase : entry.phase ≠ .mutating ∧ entry.phase ≠ .started := by
        rcases hpending with hphase | hphase <;> rw [hphase] <;> exact ⟨nofun, nofun⟩
      refine Refused.of_entry ?_ (answer_pending hentry hpending registered) rfl ?_ hphase
      · intro hstage
        rw [hstage] at hok
        exact not_pending_of_over hok hpending
      · intro hcheck
        cases hstage : s.stage with
        | checked => exact hchecked hstage
        | moved | performing =>
          rw [hstage] at hok
          exact not_pending_of_started hok hpending
        | undelivered | entered | waiting | admitted | ended | finished => rwa [hstage] at hcheck
    · exact absurd houtcome (answer_past hentry hpending registered).2

theorem Refused.goto (h : Refused taskID s) (hstage : s.stage ≠ .undelivered) {stage : Stage}
    (hnext : stage ≠ .undelivered) (hcheck : ¬PastCheck stage) :
    Refused taskID { s with stage := stage } := by
  obtain ⟨entry, hentry, hcanceled, -, hphase⟩ := h.entry hstage
  exact Refused.of_entry hnext hentry hcanceled hcheck hphase

/-- Another attempt takes neither the mark of the entry nor the refusal away. -/
theorem Refused.other (h : Refused taskID s) (hinv : Inv taskID s) {id : Nat} {call : Call}
    (hc : Undropped taskID (.other id call) s) (hne : taskID ≠ id) :
    Refused taskID { s with phases := s.phases.call id call } := by
  by_cases hstage : s.stage = .undelivered
  · rw [Refused, if_pos hstage] at h
    rw [Refused, if_pos hstage]
    refine ⟨?_, call_refused hne call h.2 (hc.2 h.2)⟩
    rcases TaskPhases.call_entry hne call with hsame | ⟨hnone, -⟩
    · exact hsame.trans h.1
    · exact hnone
  · obtain ⟨entry, hentry, hcanceled, hcheck, hphase⟩ := h.entry hstage
    refine Refused.of_entry hstage ?_ hcanceled hcheck hphase
    rcases hinv.call_entry hc hne with hsame | ⟨-, hundelivered⟩
    · exact hsame.trans hentry
    · exact absurd hundelivered hstage

/-- An attempt that was refused stays so: its next check ends it. -/
theorem refused_step (hstep : step taskID e s = some s') (hc : Undropped taskID e s)
    (h : Inv taskID s ∧ Refused taskID s) : Inv taskID s' ∧ Refused taskID s' := by
  refine ⟨inv_step hstep hc h.1, ?_⟩
  obtain ⟨hinv, h⟩ := h
  cases e with
  | other id call =>
    obtain ⟨hne, hstep⟩ := of_else hstep nofun
    cases hstep
    exact h.other hinv hc (Ne.symm hne)
  | cancel registered =>
    cases hstep
    by_cases hstage : s.stage = .undelivered
    · rw [Refused, if_pos hstage] at h
      rw [Refused, if_pos hstage]
      exact answer_unknown h.1 registered
    · obtain ⟨entry, hentry, hcanceled, hcheck, hphase⟩ := h.entry hstage
      by_cases hpending : Pending entry.phase
      · exact Refused.of_entry hstage (answer_pending hentry hpending registered) rfl hcheck hphase
      · rw [(answer_past hentry hpending registered).1]
        exact h
  | enter key =>
    obtain ⟨hstage, rfl⟩ := of_guard hstep
    rw [Refused, if_pos hstage] at h
    have hrefused : (s.phases.enter taskID key).2 = true := contains_iff_mem.mpr h.2
    rw [hrefused]
    exact Refused.of_entry nofun (enter_entry s.phases taskID key) hrefused id ⟨nofun, nofun⟩
  | check admits | recheck =>
    obtain ⟨hstage, hstep⟩ := of_then hstep nofun
    have hne : s.stage ≠ .undelivered := by rw [hstage]; exact nofun
    obtain ⟨entry, hentry, hcanceled, -⟩ := h.entry hne
    rw [canceledBeforeStart_entry hentry, hcanceled] at hstep
    cases hstep
    exact h.goto hne nofun id
  | await =>
    obtain ⟨hstage, rfl⟩ := of_guard hstep
    have hne : s.stage ≠ .undelivered := by rw [hstage]; exact nofun
    obtain ⟨entry, hentry, hcanceled, hcheck, -⟩ := h.entry hne
    exact Refused.of_entry hne (move_entry hentry .awaitingLock) hcanceled hcheck ⟨nofun, nofun⟩
  | admitted | performed =>
    obtain ⟨hstage, rfl⟩ := of_guard hstep
    exact h.goto (by rw [hstage]; exact nofun) nofun id
  | start mutating | perform =>
    obtain ⟨hstage, hstep⟩ := of_then hstep nofun
    obtain ⟨-, -, -, hcheck, -⟩ := h.entry (by rw [hstage]; exact nofun)
    rw [hstage] at hcheck
    exact absurd trivial hcheck
  | leave =>
    rw [step] at hstep
    split at hstep
    all_goals
      cases hstep
    all_goals
      next hstage => exact h.goto (by rw [hstage]; exact nofun) nofun id
  | finish hash =>
    obtain ⟨hstage, rfl⟩ := of_guard hstep
    obtain ⟨entry, hentry, hcanceled, -⟩ := h.entry (by rw [hstage]; exact nofun)
    exact Refused.of_entry nofun (finish_entry hentry hash) hcanceled id ⟨nofun, nofun⟩

/-! ## After the host was asked -/

/-- The attempt has asked the host, and its phase says so or that it is over. -/
structure Begun (taskID : Nat) (s : Attempt) : Prop where
  stage : s.stage = .performing ∨ s.stage = .ended ∨ s.stage = .finished
  phase : ∃ entry, s.phases.entries taskID = some entry ∧ ¬Pending entry.phase

theorem begun_step (hstep : step taskID e s = some s') (hc : Undropped taskID e s)
    (h : Inv taskID s ∧ Begun taskID s) : Inv taskID s' ∧ Begun taskID s' := by
  refine ⟨inv_step hstep hc h.1, ?_⟩
  obtain ⟨hinv, hstages, entry, hentry, hpast⟩ := h
  cases e with
  | other id call =>
    obtain ⟨hne, hstep⟩ := of_else hstep nofun
    cases hstep
    refine ⟨hstages, entry, ?_, hpast⟩
    rcases hinv.call_entry hc (Ne.symm hne) with hsame | ⟨-, hundelivered⟩
    · exact hsame.trans hentry
    · rcases hstages with hs | hs | hs <;> rw [hs] at hundelivered <;> cases hundelivered
  | cancel registered =>
    cases hstep
    rw [(answer_past hentry hpast registered).1]
    exact ⟨hstages, entry, hentry, hpast⟩
  | enter _ | check _ | await | admitted | recheck | start _ | perform =>
    -- these are made at earlier stages
    obtain ⟨hstage, -⟩ := of_then hstep nofun
    rcases hstages with hs | hs | hs <;> rw [hs] at hstage <;> cases hstage
  | performed =>
    obtain ⟨-, rfl⟩ := of_guard hstep
    exact ⟨.inr (.inl rfl), entry, hentry, hpast⟩
  | leave =>
    rw [step] at hstep
    split at hstep
    all_goals
      cases hstep
    all_goals
      exact ⟨.inr (.inl rfl), entry, hentry, hpast⟩
  | finish hash =>
    obtain ⟨-, rfl⟩ := of_guard hstep
    exact ⟨.inr (.inr rfl), _, finish_entry hentry hash, not_pending_of_over (.inl rfl)⟩

theorem begun_of_perform (h : Inv taskID s) (hstep : step taskID .perform s = some s') :
    Begun taskID s' := by
  obtain ⟨hstage, rfl⟩ := of_guard hstep
  obtain ⟨entry, hentry, hok⟩ := h.entry (by rw [hstage]; exact nofun)
  rw [hstage] at hok
  exact ⟨.inl rfl, entry, hentry, not_pending_of_started hok⟩

theorem begun_run {events : List CancelEvent} (h : Inv taskID s)
    (hc : meets (step taskID) (Undropped taskID) events s)
    (hrun : run (step taskID) events s = some s') (hperform : .perform ∈ events) : Begun taskID s' := by
  induction events generalizing s with
  | nil => cases hperform
  | cons e events ih =>
    obtain ⟨t, hstep, hrest⟩ := run_cons hrun
    have hnext := inv_step hstep hc.1 h
    rcases mem_cons.mp hperform with rfl | hin
    · have hbegun := begun_of_perform h hstep
      exact (run_inv_of_meets (I := fun s => Inv taskID s ∧ Begun taskID s) begun_step (hc.2 t hstep)
        hrest ⟨hnext, hbegun⟩).2
    · exact ih hnext (hc.2 t hstep) hrest hin

/-- An attempt before its delivery, with any table that has no task under way for it. -/
theorem inv_undelivered {p : TaskPhases} (h : p.droppable taskID = true) :
    Inv taskID ⟨p, .undelivered⟩ where
  known hne := absurd rfl hne
  phase entry hentry := by
    rw [droppable_of_entry hentry, Bool.or_eq_true, decide_eq_true_eq, decide_eq_true_eq] at h
    exact h

/-- **A cancel is answered truthfully.**  Where no other attempt drops what the table holds of this
one: after a cancel that is answered with `notStarted`, and that does not come between the last check of
the executor and its move, the attempt is never in a phase of a task that started; after the attempt has
asked the host, no cancel is answered so. -/
theorem cancel_answered_truthfully (taskID : Nat) (p : TaskPhases) (hp : p.droppable taskID = true) :
    (∀ (before after : List CancelEvent) (registered : Bool) (s s' : Attempt),
      meets (step taskID) (Undropped taskID) (before ++ .cancel registered :: after) ⟨p, .undelivered⟩ →
      run (step taskID) before ⟨p, .undelivered⟩ = some s → s.stage ≠ .checked →
      s.cancelOutcome taskID registered = .notStarted →
      run (step taskID) (.cancel registered :: after) s = some s' →
      ∀ entry, s'.phases.entries taskID = some entry → entry.phase ≠ .mutating ∧ entry.phase ≠ .started) ∧
    (∀ (events : List CancelEvent) (registered : Bool) (s : Attempt),
      meets (step taskID) (Undropped taskID) events ⟨p, .undelivered⟩ →
      run (step taskID) events ⟨p, .undelivered⟩ = some s → .perform ∈ events →
      s.cancelOutcome taskID registered ≠ .notStarted) := by
  have hstart := inv_undelivered hp
  refine ⟨fun before after registered s s' hc hbefore hchecked houtcome hafter entry hentry => ?_,
    fun events registered s hc hrun hperform => ?_⟩
  · obtain ⟨t, hstep, hrest⟩ := run_cons hafter
    obtain ⟨hcbefore, -, hcafter⟩ := meets_append hbefore hc
    have hinv := inv_run hcbefore hbefore hstart
    cases hstep
    have hrefused : Inv taskID s' ∧ Refused taskID s' :=
      run_inv_of_meets (I := fun s => Inv taskID s ∧ Refused taskID s) refused_step (hcafter _ rfl) hrest
        ⟨hinv.cancel registered, refused_of_notStarted hinv houtcome hchecked⟩
    by_cases hstage : s'.stage = .undelivered
    · have hnone := hrefused.2
      rw [Refused, if_pos hstage, hentry] at hnone
      cases hnone.1
    · obtain ⟨other, hother, -, -, hphase⟩ := hrefused.2.entry hstage
      obtain rfl : other = entry := Option.mem_unique hother hentry
      exact hphase
  · obtain ⟨-, entry, hentry, hpast⟩ := begun_run hstart hc hrun hperform
    exact (answer_past hentry hpast registered).2

def noPhases : TaskPhases := ⟨fun _ => none, [], []⟩

/-- Another attempt is canceled and a third one delivered; a cancel while the attempt waits ends
it. -/
theorem cancel_answered_truthfully_waiting :
    ∃ s s', run (step 7) [.other 3 (.cancel false), .enter 1, .check true, .await]
        ⟨noPhases, .undelivered⟩ = some s ∧
      s.cancelOutcome 7 false = .notStarted ∧
      run (step 7) [.cancel false, .other 4 (.enter 2), .admitted, .recheck] s = some s' ∧
      s'.stage = .ended ∧
      ∀ entry, s'.phases.entries 7 = some entry → entry.phase ≠ .mutating ∧ entry.phase ≠ .started := by
  refine ⟨_, _, rfl, rfl, rfl, rfl, ?_⟩
  refine (cancel_answered_truthfully 7 noPhases rfl).1
    [.other 3 (.cancel false), .enter 1, .check true, .await] [.other 4 (.enter 2), .admitted, .recheck]
    false _ _ ?_ rfl nofun rfl rfl
  refine meets_cons ⟨nofun, nofun⟩ rfl <| meets_cons trivial rfl <| meets_cons trivial rfl <|
    meets_cons trivial rfl <| meets_cons trivial rfl <| meets_cons ⟨nofun, fun _ => trivial⟩ rfl <|
    meets_cons trivial rfl <| meets_cons trivial rfl trivial

/-- A cancel after the last check is answered with `notStarted`, and the attempt moves on to
change the host. -/
theorem canceled_and_started :
    ∃ s s', run (step 7) [.enter 1, .check true, .admitted, .recheck] ⟨noPhases, .undelivered⟩ = some s ∧
      s.cancelOutcome 7 false = .notStarted ∧
      run (step 7) [.cancel false, .start true, .perform] s = some s' ∧
      (s'.phases.entries 7).map TaskPhase.phase = some .mutating := by
  exact ⟨_, _, rfl, rfl, rfl, rfl⟩

end Attempt

end Flotestro.Agent
