import Flotestro.Library.Tables
import Flotestro.Jobs.Model.Store

/-!
# Attempts carry jobs

`JobMove` says what one call can do to a job together with the number of its open attempts, and
`moves_step` says it of every call; the invariant and the finality of a final state follow from that
alone.  The one call that has to be made in its turn is `ReleaseLease`: it puts the job back in the
queue whichever attempt carries it.
-/

set_option autoImplicit false

namespace Flotestro.Jobs

open Library List

theorem State.not_terminal_of_holdsLease {t : State} (h : t.holdsLease = true) :
    t.terminal = false := by
  cases t <;> first | rfl | cases h

namespace Store

/-! ## Open attempts -/

def openAttempts (s : Store) (job : Nat) : Nat := s.attempts.countP (Attempt.carries job)

section

variable {s s' : Store} {p : Attempt → Bool} {f : Attempt → Attempt} {job : Nat}

/-- A write that keeps the job of an attempt and opens none. -/
def Closing (f : Attempt → Attempt) : Prop :=
  ∀ a, (f a).job = a.job ∧ (a.finished = true → (f a).finished = true)

theorem closing_closed (status : AttemptStatus) : Closing (Attempt.closed status) :=
  fun _ => ⟨rfl, fun _ => rfl⟩

theorem Closing.carries (hf : Closing f) {a : Attempt} (h : (f a).carries job = true) :
    a.carries job = true := by
  simp only [Attempt.carries, Bool.and_eq_true, Bool.not_eq_true'] at h ⊢
  obtain ⟨hjob, hfinished⟩ := hf a
  refine ⟨by rw [← hjob]; exact h.1, ?_⟩
  by_contra hopen
  rw [hfinished (Bool.not_eq_false _ ▸ hopen)] at h
  exact absurd h.2 (by decide)

theorem openAttempts_update_le (hf : Closing f) :
    (s.updateAttempts p f).openAttempts job ≤ s.openAttempts job := by
  unfold openAttempts updateAttempts
  rw [countP_map]
  apply countP_mono_left
  intro a _ h
  simp only [Function.comp_apply] at h
  split at h
  · exact hf.carries h
  · exact h

theorem countP_lt_of_exists {α : Type} {p q : α → Bool} {l : List α}
    (h : ∀ a ∈ l, p a = true → q a = true) (hex : ∃ a ∈ l, q a = true ∧ p a = false) :
    l.countP p < l.countP q := by
  obtain ⟨a, ha, hq, hp⟩ := hex
  obtain ⟨l₁, l₂, rfl⟩ := append_of_mem ha
  have hleft : l₁.countP p ≤ l₁.countP q := countP_mono_left fun b hb => h b (by simp [hb])
  have hright : l₂.countP p ≤ l₂.countP q := countP_mono_left fun b hb => h b (by simp [hb])
  rw [countP_append, countP_append, countP_cons_of_pos hq, countP_cons_of_neg (by simp [hp])]
  omega

theorem openAttempts_close_lt (status : AttemptStatus) {a : Attempt} (ha : a ∈ s.attempts)
    (hcarries : a.carries job = true) (hp : p a = true) :
    (s.updateAttempts p (Attempt.closed status)).openAttempts job < s.openAttempts job := by
  unfold openAttempts updateAttempts
  rw [countP_map]
  apply countP_lt_of_exists
  · intro b _ h
    simp only [Function.comp_apply] at h
    split at h
    · exact (closing_closed status).carries h
    · exact h
  · refine ⟨a, ha, hcarries, ?_⟩
    simp [hp, Attempt.carries, Attempt.closed]

end

/-- What a call may do to a job whose open attempts go from `n` to `n'`. -/
inductive JobMove (n n' : Nat) : State → State → Prop where
  | kept (a : State) (h : n' ≤ n) : JobMove n n' a a
  | leased (h : n' ≤ n + 1) : JobMove n n' .queued .leased
  | held (a b : State) (ha : a.holdsLease = true) (hb : b.holdsLease = true) (h : n' ≤ n) :
      JobMove n n' a b
  | requeued (a : State) (ha : a.holdsLease = true) (h : n' = 0) : JobMove n n' a .queued
  | settled (a b : State) (ha : a.terminal = false) (hb : b.terminal = true) : JobMove n n' a b

/-- What a call may do to the jobs. -/
def Moves (s s' : Store) : Prop :=
  Forall₂ (fun j j' => j'.id = j.id ∧
    JobMove (s.openAttempts j.id) (s'.openAttempts j.id) j.state j'.state) s.jobs s'.jobs

/-- **Jobs and attempts correspond.** -/
structure Invariant (s : Store) : Prop where
  nodup : (s.jobs.map Job.id).Nodup
  queued : ∀ j ∈ s.jobs, j.state = .queued → s.openAttempts j.id = 0
  held : ∀ j ∈ s.jobs, j.state.holdsLease = true → s.openAttempts j.id ≤ 1

section

variable {s s' : Store}

theorem moves_of_update (p : Job → Bool) (next : Job → State)
    (hjobs : s'.jobs = (s.updateJobs p next).jobs)
    (hopen : ∀ job, s'.openAttempts job ≤ s.openAttempts job) (hnext : ∀ j ∈ s.jobs, p j = true →
      JobMove (s.openAttempts j.id) (s'.openAttempts j.id) j.state (next j)) : Moves s s' := by
  unfold Moves
  rw [hjobs]
  refine forall₂_map_right_iff.mpr (forall₂_same.mpr fun j hj => ?_)
  split
  next hp => exact ⟨rfl, hnext j hj hp⟩
  · exact ⟨rfl, .kept _ (hopen j.id)⟩

theorem moves_of_jobs_eq (hjobs : s'.jobs = s.jobs)
    (hopen : ∀ job, s'.openAttempts job ≤ s.openAttempts job) : Moves s s' := by
  unfold Moves
  rw [hjobs]
  exact forall₂_same.mpr fun j _ => ⟨rfl, .kept _ (hopen j.id)⟩

theorem moves_refl (s : Store) : Moves s s := moves_of_jobs_eq rfl fun _ => Nat.le_refl _

theorem moves_updateJobs {p : Job → Bool} {next : Job → State} (hnext : ∀ j ∈ s.jobs, p j = true →
      JobMove (s.openAttempts j.id) (s.openAttempts j.id) j.state (next j)) :
    Moves s (s.updateJobs p next) :=
  moves_of_update _ _ rfl (fun _ => Nat.le_refl _) hnext

theorem Invariant.eq_of_id (hs : s.Invariant) {j k : Job} (hj : j ∈ s.jobs) (hk : k ∈ s.jobs)
    (h : j.id = k.id) : j = k :=
  inj_on_of_nodup_map hs.nodup hj hk h

theorem Moves.ids_eq (h : Moves s s') : s'.jobs.map Job.id = s.jobs.map Job.id :=
  map_eq_of_forall₂ h fun _ _ hrow => hrow.1

theorem Moves.row (h : Moves s s') {j' : Job} (hj' : j' ∈ s'.jobs) : ∃ j ∈ s.jobs, j'.id = j.id ∧
      JobMove (s.openAttempts j.id) (s'.openAttempts j.id) j.state j'.state :=
  exists_of_mem_forall₂ h hj'

theorem Invariant.moves (hs : s.Invariant) (h : Moves s s') : s'.Invariant := by
  refine ⟨by rw [h.ids_eq]; exact hs.nodup, ?_, ?_⟩
  · intro j' hj' hstate
    obtain ⟨j, hj, hid, hmove⟩ := h.row hj'
    rw [hid]
    rw [hstate] at hmove
    generalize hold : j.state = a at hmove
    cases hmove with
    | kept _ hle => exact Nat.le_zero.mp (hs.queued j hj hold ▸ hle)
    | held _ _ _ hb _ | settled _ _ _ hb => cases hb
    | requeued _ _ hzero => exact hzero
  · intro j' hj' hstate
    obtain ⟨j, hj, hid, hmove⟩ := h.row hj'
    rw [hid]
    generalize hold : j.state = a at hmove
    generalize j'.state = b at hmove hstate
    cases hmove with
    | kept _ hle => exact Nat.le_trans hle (hs.held j hj (by rw [hold]; exact hstate))
    | leased hle =>
      rw [hs.queued j hj hold] at hle
      exact hle
    | held _ _ ha _ hle => exact Nat.le_trans hle (hs.held j hj (by rw [hold]; exact ha))
    | requeued _ _ _ => cases hstate
    | settled _ _ _ hb =>
      rw [State.not_terminal_of_holdsLease hstate] at hb
      cases hb

end

section

variable {s : Store} {job attempt host : Nat}

/-- The states of a job that is being handed over. -/
theorem holdsLease_of_handing {t : State} (h : (t = .leased || t = .dispatched) = true) :
    t.holdsLease = true := by
  rcases Bool.or_eq_true_iff.mp h with h | h <;> rw [of_decide_eq_true h] <;> rfl

theorem moves_dispatched :
    Moves s (s.updateJobs (fun j => j.id = job && j.state = .leased) fun _ => .dispatched) := by
  apply moves_updateJobs
  intro j _ hp
  have hleased : j.state = .leased := of_decide_eq_true (Bool.and_eq_true_iff.mp hp).2
  rw [hleased]
  exact .held _ _ rfl rfl (Nat.le_refl _)

theorem moves_markDispatched {session fence : Bool} {lease : Int} :
    Moves s (s.markDispatched job attempt session fence lease) := by
  unfold markDispatched
  split
  · exact moves_refl s
  split
  · exact moves_refl s
  split
  · refine moves_of_update _ _ rfl (fun _ => openAttempts_update_le fun _ => ⟨rfl, fun h => h⟩) ?_
    intro j _ hp
    have hleased : j.state = .leased := of_decide_eq_true (Bool.and_eq_true_iff.mp hp).2
    rw [hleased]
    exact .held _ _ rfl rfl (openAttempts_update_le fun _ => ⟨rfl, fun h => h⟩)
  · exact moves_refl s

theorem moves_markRunning (hs : s.Invariant) : Moves s (s.markRunning attempt host) := by
  unfold markRunning
  split
  · exact moves_refl s
  next a hfind =>
    have hopen := find?_some hfind
    obtain ⟨_, hjob⟩ := Bool.and_eq_true_iff.mp hopen
    obtain ⟨k, hk, hmatch⟩ := any_eq_true.mp hjob
    obtain ⟨hmatch, hstate⟩ := Bool.and_eq_true_iff.mp hmatch
    have hid : k.id = a.job := of_decide_eq_true (Bool.and_eq_true_iff.mp hmatch).1
    apply moves_updateJobs
    intro j hj hp
    obtain rfl : j = k := hs.eq_of_id hj hk (by rw [hid]; exact of_decide_eq_true hp)
    exact .held _ _ (holdsLease_of_handing hstate) rfl (Nat.le_refl _)

theorem moves_failUndelivered : Moves s (s.failUndelivered job attempt) := by
  unfold failUndelivered giveUp
  split
  · refine moves_of_update _ _ rfl (fun id => openAttempts_update_le (closing_closed _)) ?_
    intro j _ hp
    have hheld := holdsLease_of_handing (Bool.and_eq_true_iff.mp hp).2
    exact .settled _ _ (State.not_terminal_of_holdsLease hheld) rfl
  · exact moves_refl s

/-- A lease is released by the attempt that carries the job. -/
def CarriedBy (s : Store) (job attempt : Nat) : Prop :=
  (∃ j ∈ s.jobs, j.id = job ∧ (j.state = .leased || j.state = .dispatched) = true) →
    ∃ a ∈ s.attempts, a.id = attempt ∧ a.carries job = true

instance decidableCarriedBy (s : Store) (job attempt : Nat) :
    Decidable (s.CarriedBy job attempt) :=
  inferInstanceAs (Decidable ((∃ j ∈ s.jobs, _) → (∃ a ∈ s.attempts, _)))

theorem moves_releaseLease (hs : s.Invariant) (hcarried : s.CarriedBy job attempt) :
    Moves s (s.releaseLease job attempt) := by
  unfold releaseLease giveUp
  split
  · refine moves_of_update _ _ rfl (fun id => openAttempts_update_le (closing_closed _)) ?_
    intro j hj hp
    obtain ⟨hid, hstate⟩ := Bool.and_eq_true_iff.mp hp
    obtain rfl : j.id = job := of_decide_eq_true hid
    obtain ⟨a, ha, hattempt, hcarries⟩ := hcarried ⟨j, hj, rfl, hstate⟩
    have hheld := holdsLease_of_handing hstate
    -- the attempt that is closed is the only open one
    have hlt := openAttempts_close_lt (p := fun a => a.id = attempt) .released ha hcarries
      (decide_eq_true hattempt)
    have hone := hs.held j hj hheld
    refine .requeued _ hheld ?_
    change (s.updateAttempts (fun a => a.id = attempt)
      (Attempt.closed .released)).openAttempts j.id = 0
    omega
  · exact moves_refl s

theorem settles_not_terminal {current asked : State} {late : Bool}
    (h : fateOfResult current asked late = .settles) : current.terminal = false := by
  obtain ⟨hopen, h⟩ := of_else h nofun
  simpa using hopen

theorem moves_recordResult (hs : s.Invariant) {asked : State} {status : ResultStatus}
    {fence : Bool} (hasked : asked.terminal = true) :
    Moves s (s.recordResult job attempt asked status fence) := by
  unfold recordResult
  split
  next j a hj ha =>
    dsimp only
    split
    · exact moves_refl s
    split
    next hfate =>
      split
      · have hopen : ∀ id, (s.settle job attempt asked status
            (lateResultDisposition a.status).2).openAttempts id ≤ s.openAttempts id := by
          intro id
          unfold settle
          split
          · exact Nat.le_trans (openAttempts_update_le (closing_closed _))
              (openAttempts_update_le (closing_closed _))
          · exact openAttempts_update_le (closing_closed _)
        refine moves_of_update (fun k => k.id = job) (fun _ => asked) ?_ hopen ?_
        · unfold settle
          split <;> rfl
        · intro k hk hp
          have hmem := mem_of_find?_eq_some hj
          have hfind : s.jobs.find? (fun k => k.id = job) = some j := hj
          have hid : j.id = job := by simpa using find?_some hfind
          obtain rfl : k = j := hs.eq_of_id hk hmem (by rw [hid]; exact of_decide_eq_true hp)
          exact .settled _ _ (settles_not_terminal hfate) hasked
      · exact moves_refl s
    · split
      · exact moves_of_jobs_eq rfl fun _ => openAttempts_update_le (closing_closed _)
      · exact moves_refl s
  · exact moves_refl s

theorem moves_reclaimExpiredLeases (hs : s.Invariant) : Moves s s.reclaimExpiredLeases := by
  have hopen : ∀ id, s.reclaimExpiredLeases.openAttempts id ≤ s.openAttempts id :=
    fun id => openAttempts_update_le (closing_closed _)
  refine moves_of_update _ _ rfl hopen ?_
  intro j hj hreclaimed
  -- a job that is reclaimed holds a lease, and none of its attempts stays open
  obtain ⟨hheld, hzero⟩ : j.state.holdsLease = true ∧
      s.reclaimExpiredLeases.openAttempts j.id = 0 := by
    rcases Bool.or_eq_true_iff.mp hreclaimed with hlapsed | hstranded
    · obtain ⟨a, ha, hboth⟩ := any_eq_true.mp hlapsed
      obtain ⟨hjob, hover⟩ := Bool.and_eq_true_iff.mp hboth
      have hover' := hover
      obtain ⟨hunfinished, hany⟩ := Bool.and_eq_true_iff.mp hover'
      obtain ⟨k, hk, hmatch⟩ := any_eq_true.mp hany
      obtain ⟨hmatch, _⟩ := Bool.and_eq_true_iff.mp hmatch
      obtain ⟨hid, hholds⟩ := Bool.and_eq_true_iff.mp hmatch
      have haj : a.job = j.id := of_decide_eq_true hjob
      obtain rfl : k = j := hs.eq_of_id hk hj (by rw [← haj]; exact of_decide_eq_true hid)
      have hcarries : a.carries k.id = true := by
        rw [Attempt.carries, hunfinished, haj]
        simp
      have hlt := openAttempts_close_lt .leaseExpired ha hcarries hover
      have hone := hs.held k hj hholds
      refine ⟨hholds, ?_⟩
      change (s.updateAttempts s.overdue (Attempt.closed .leaseExpired)).openAttempts k.id = 0
      omega
    · obtain ⟨hholds, hnone⟩ := Bool.and_eq_true_iff.mp hstranded
      refine ⟨hholds, Nat.le_zero.mp (Nat.le_trans (hopen j.id) ?_)⟩
      unfold openAttempts
      rw [Nat.le_zero, countP_eq_zero]
      intro a ha hcarries
      rw [Bool.not_eq_true', any_eq_false] at hnone
      exact hnone a ha hcarries
  have hopenState := State.not_terminal_of_holdsLease hheld
  split
  · exact .settled _ _ hopenState rfl
  · split
    · exact .settled _ _ hopenState rfl
    · exact .requeued _ hheld hzero

theorem moves_expireOverdue : Moves s s.expireOverdue := by
  apply moves_updateJobs
  intro j _ hp
  refine .settled _ _ ?_ rfl
  obtain ⟨hstate, _⟩ := Bool.and_eq_true_iff.mp hp
  simp only [Bool.or_eq_true, decide_eq_true_eq] at hstate
  rcases hstate with (h | h) | h <;> rw [h] <;> rfl

theorem moves_recordCancelAck {revision : Nat} {outcome : CancelOutcome} {fence : Bool} :
    Moves s (s.recordCancelAck job revision outcome fence) := by
  have hasked : ∀ j : Job, (j.id = job && j.cancelRevision = revision &&
      j.state = .cancelRequested) = true → j.state = .cancelRequested :=
    fun j h => of_decide_eq_true (Bool.and_eq_true_iff.mp h).2
  unfold recordCancelAck
  split
  · exact moves_refl s
  cases outcome with
  | notStarted | interrupted =>
    apply moves_updateJobs
    intro j _ hp
    rw [hasked j hp]
    exact .settled _ _ rfl rfl
  | notInterruptible =>
    apply moves_updateJobs
    intro j _ hp
    rw [hasked j hp]
    exact .held _ _ rfl rfl (Nat.le_refl _)
  | alreadyDone => exact moves_refl s

theorem moves_settleCancelTimeouts : Moves s s.settleCancelTimeouts := by
  refine moves_of_update _ _ rfl (fun id => openAttempts_update_le (closing_closed _)) ?_
  intro j _ hp
  have hasked : j.state = .cancelRequested :=
    of_decide_eq_true (Bool.and_eq_true_iff.mp hp).1
  rw [hasked]
  exact .settled _ _ rfl rfl

theorem openAttempts_leaseJobs {ids : List Nat} {lease : Int} {fresh : Nat → Nat} :
    (s.leaseJobs ids lease fresh).openAttempts job =
      s.openAttempts job + ((s.taken ids).map Job.id).count job := by
  unfold openAttempts leaseJobs
  rw [countP_append, countP_map, List.count, countP_map]
  congr 1
  apply countP_congr
  intro j _
  simp [Attempt.carries]

theorem moves_leaseJobs (hs : s.Invariant) {ids : List Nat} {lease : Int} {fresh : Nat → Nat} :
    Moves s (s.leaseJobs ids lease fresh) := by
  have hnodup : ((s.taken ids).map Job.id).Nodup :=
    hs.nodup.sublist (filter_sublist.map Job.id)
  refine forall₂_map_right_iff.mpr (forall₂_same.mpr fun j hj => ?_)
  split
  next htaken =>
    have hqueued : j.state = .queued :=
      of_decide_eq_true (Bool.and_eq_true_iff.mp (Bool.and_eq_true_iff.mp htaken).1).1
    refine ⟨rfl, ?_⟩
    rw [hqueued, openAttempts_leaseJobs]
    have hone := nodup_iff_count_le_one.mp hnodup j.id
    exact .leased (by omega)
  next htaken =>
    refine ⟨rfl, .kept _ ?_⟩
    rw [openAttempts_leaseJobs]
    -- a job that is not taken shares its identifier with none that is
    have hzero : ((s.taken ids).map Job.id).count j.id = 0 := by
      rw [count_eq_zero]
      intro hmem
      obtain ⟨k, hk, hid⟩ := mem_map.mp hmem
      obtain ⟨hkmem, hktaken⟩ := mem_filter.mp hk
      obtain rfl := hs.eq_of_id hkmem hj hid
      exact htaken hktaken
    omega

end

/-- The call is no release of a lease by an attempt that does not carry the job. -/
def InTurn : Event → Store → Prop
  | .releaseLease job attempt, s => s.CarriedBy job attempt
  | _, _ => True

instance decidableInTurn (e : Event) (s : Store) : Decidable (InTurn e s) := by
  cases e with
  | releaseLease job attempt => exact decidableCarriedBy s job attempt
  | _ => exact .isTrue trivial

theorem moves_step (e : Event) (s s' : Store) (h : step e s = some s') (hturn : InTurn e s)
    (hs : s.Invariant) : Moves s s' := by
  cases e with
  | tick d =>
    cases h
    exact moves_of_jobs_eq rfl fun _ => Nat.le_refl _
  | leaseJobs ids lease fresh =>
    obtain ⟨_, rfl⟩ := of_guard h
    exact moves_leaseJobs hs
  | markDispatched job attempt session fence lease =>
    obtain ⟨_, rfl⟩ := of_guard h
    exact moves_markDispatched
  | recordHandover job attempt =>
    obtain ⟨_, rfl⟩ := of_guard h
    exact moves_dispatched
  | acceptAttempt attempt host lease | renewAttemptLease attempt host extension =>
    cases h
    exact moves_of_jobs_eq rfl fun _ => openAttempts_update_le fun _ => ⟨rfl, fun h => h⟩
  | markRunning attempt host =>
    cases h
    exact moves_markRunning hs
  | releaseLease job attempt =>
    obtain ⟨_, rfl⟩ := of_guard h
    exact moves_releaseLease hs hturn
  | failUndelivered job attempt =>
    obtain ⟨_, rfl⟩ := of_guard h
    exact moves_failUndelivered
  | recordResult job attempt asked status fence =>
    obtain ⟨hcall, rfl⟩ := of_guard h
    exact moves_recordResult hs (Bool.and_eq_true_iff.mp hcall).2
  | reclaimExpiredLeases =>
    cases h
    exact moves_reclaimExpiredLeases hs
  | expireOverdue =>
    cases h
    exact moves_expireOverdue
  | recordCancelAck job revision outcome fence =>
    cases h
    exact moves_recordCancelAck
  | settleCancelTimeouts =>
    cases h
    exact moves_settleCancelTimeouts

def FinalStays (s s' : Store) : Prop :=
  Forall₂ (fun j j' : Job => j'.id = j.id ∧ (j.state.terminal = true → j'.state = j.state))
    s.jobs s'.jobs

theorem finalStays_of_moves {s s' : Store} (h : Moves s s') : FinalStays s s' := by
  refine Forall₂.imp (fun j j' hrow => ⟨hrow.1, fun hfinal => ?_⟩) h
  obtain ⟨_, hmove⟩ := hrow
  generalize j.state = a at hmove hfinal
  generalize j'.state = b at hmove
  cases hmove with
  | kept => rfl
  | leased => cases hfinal
  | held _ _ ha _ _ | requeued _ ha _ =>
    rw [State.not_terminal_of_holdsLease ha] at hfinal
    cases hfinal
  | settled _ _ ha _ =>
    rw [ha] at hfinal
    cases hfinal

theorem finalStays_trans {s t u : Store} (hst : FinalStays s t) (htu : FinalStays t u) :
    FinalStays s u := by
  refine forall₂_trans hst htu ?_
  rintro i j k ⟨hid, hstay⟩ ⟨hid', hstay'⟩
  refine ⟨hid'.trans hid, fun hfinal => ?_⟩
  have hsame := hstay hfinal
  rw [← hsame]
  exact hstay' (by rw [hsame]; exact hfinal)

theorem invariant_step (e : Event) (s s' : Store) (h : step e s = some s') (hturn : InTurn e s)
    (hs : s.Invariant) : s'.Invariant :=
  hs.moves (moves_step e s s' h hturn hs)

/-- **Attempts carry jobs.**  In every run from corresponding jobs and attempts whose
leases are released only by the attempt that carries the job: a queued job has no open attempt, a
job that holds a lease has at most one, and a job in a final state is in it ever after. -/
theorem attempts_carry_jobs {s x y : Store} {es fs : List Event} (hs : s.Invariant)
    (hturn : meets step InTurn (es ++ fs) s) (hx : run step es s = some x)
    (hy : run step fs x = some y) : (∀ j ∈ x.jobs, (j.state = .queued → x.openAttempts j.id = 0) ∧
      (j.state.holdsLease = true → x.openAttempts j.id ≤ 1)) ∧
    ∀ j ∈ x.jobs, j.state.terminal = true → ∃ j' ∈ y.jobs, j'.id = j.id ∧ j'.state = j.state := by
  obtain ⟨hes, hfs⟩ := meets_append hx hturn
  have hinv : x.Invariant := run_inv_of_meets (invariant_step _ _ _) hes hx hs
  refine ⟨fun j hj => ⟨hinv.queued j hj, hinv.held j hj⟩, fun j hj hfinal => ?_⟩
  have hstays : FinalStays x y :=
    run_rel_of_meets (fun s => forall₂_same.mpr fun _ _ => ⟨rfl, fun _ => rfl⟩)
      finalStays_trans (invariant_step _ _ _)
      (fun ht hc hi => finalStays_of_moves (moves_step _ _ _ ht hc hi)) hfs hy hinv
  obtain ⟨j', hj', hid, hsame⟩ := exists_of_mem_forall₂ hstays.flip hj
  exact ⟨j', hj', hid, hsame hfinal⟩

/-! ### A late release -/

def oneQueued : Store :=
  { now := 0
    jobs := [⟨7, 1, false, .queued, 1000, 60, 0, none⟩]
    attempts := [] }

theorem invariant_oneQueued : oneQueued.Invariant := ⟨by decide, by decide, by decide⟩

/-- The job is leased, its lease runs out, and it is leased again. -/
def leasedTwice : List Event :=
  [.leaseJobs [7] 10 (fun _ => 1), .tick 11, .reclaimExpiredLeases, .leaseJobs [7] 10 (fun _ => 2)]

def secondLease : Store := (run step leasedTwice oneQueued).getD oneQueued

/-- The second attempt is released, and the job is leased and done. -/
def doneThird : List Event :=
  [.releaseLease 7 2, .leaseJobs [7] 10 (fun _ => 3), .recordHandover 7 3,
    .recordResult 7 3 .succeeded .succeeded true]

def thirdDone : Store := (run step doneThird secondLease).getD oneQueued

theorem meets_doneThird : meets step InTurn (leasedTwice ++ doneThird) oneQueued := by decide

theorem attempts_carry_jobs_released :
    (secondLease.jobs.map Job.state = [.leased] ∧ thirdDone.jobs.map Job.state = [.succeeded]) ∧
      ∀ j ∈ secondLease.jobs, j.state.holdsLease = true → secondLease.openAttempts j.id ≤ 1 :=
  ⟨by decide, fun j hj =>
    ((attempts_carry_jobs invariant_oneQueued meets_doneThird rfl rfl).1 j hj).2⟩

/-- The first attempt is released when the second carries the job, and the job is leased
once more. -/
theorem late_release_splits_job :
    ∃ x y, run step (leasedTwice ++ [.releaseLease 7 1]) oneQueued = some x ∧
      x.jobs.map Job.state = [.queued] ∧ x.openAttempts 7 = 1 ∧
      step (.leaseJobs [7] 10 fun _ => 3) x = some y ∧
      y.jobs.map Job.state = [.leased] ∧ y.openAttempts 7 = 2 :=
  ⟨_, _, rfl, by decide, by decide, rfl, by decide, by decide⟩

end Store

end Flotestro.Jobs
