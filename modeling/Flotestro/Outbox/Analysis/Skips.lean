import Flotestro.Outbox.Analysis.Trail

/-!
# Runs of the trail

In one cluster every event at or below the cursor was in a round the receiver accepted or is in the
dead letters, whatever transactions, instances and failures there were.  After a restore the same holds
where the cluster begins above every identifier it was restored with; where it begins below the
identifier of the restored cursor and goes past it while the consumer makes no round, the events in
between are skipped.
-/

set_option autoImplicit false

namespace Flotestro.Outbox

open Library List

namespace World

variable {ι : Type} [DecidableEq ι] {s s' : World ι} {passed : Row → Prop}

omit [DecidableEq ι] in
theorem Inv.cursor_eq (hs : Inv passed s) :
    s.cursor = toLex (s.consumer.lastXid, s.consumer.lastId) := cursorAt_eq hs.cursor.known

omit [DecidableEq ι] in
theorem Inv.covered (hs : Inv passed s) {row : Row} (hrow : row ∈ s.rows)
    (hle : eventKey s.xmax row ≤ s.cursor) : Covered passed s row := by
  rw [hs.cluster.eventKey_eq hrow, hs.cursor_eq] at hle
  exact (hs.cursor.covers row hrow hle).elim id fun h => absurd h not_mem_nil

omit [DecidableEq ι] in
theorem advanceCursor_le (hs : Inv passed s) (round : Round) :
    s.cursor ≤ toLex ((s.advanceCursor round).lastXid, (s.advanceCursor round).lastId) := by
  unfold advanceCursor
  split
  next h => exact le_of_lt h
  · exact le_of_eq hs.cursor_eq

theorem cursor_le_of_step {e : Event ι} (h : step e s = some s') (hs : Inv passed s) :
    s.cursor ≤ s'.cursor := by
  have hs' := inv_step h hs
  have hsame : s'.consumer.lastXid = s.consumer.lastXid → s'.consumer.lastId = s.consumer.lastId →
      s.cursor ≤ s'.cursor := by
    intro hxid hid
    rw [hs'.cursor_eq, hxid, hid, hs.cursor_eq]
  have hadvanced : ∀ round, s'.consumer.lastXid = (s.advanceCursor round).lastXid →
      s'.consumer.lastId = (s.advanceCursor round).lastId → s.cursor ≤ s'.cursor := by
    intro round hxid hid
    rw [hs'.cursor_eq, hxid, hid]
    exact advanceCursor_le hs round
  cases e with
  | tick elapsed | assign | crash i | sweep picked =>
    cases h
    exact hsame rfl rfl
  | insert x | commit x | rollback x | accept i | refuse i =>
    rw [step] at h
    split at h
    · cases h
      exact hsame rfl rfl
    · cases h
  | claim i =>
    obtain ⟨-, rfl⟩ := of_guard h
    apply hsame <;>
    · unfold World.claim
      dsimp only
      split <;> rfl
  | read i =>
    rw [step] at h
    split at h
    next xid n failures hi =>
      cases h
      apply hsame <;>
      · unfold World.read
        split
        · split <;> rfl
        · rfl
    · cases h
  | settle i =>
    rw [step] at h
    split at h
    next round hi =>
      cases h
      exact hadvanced round rfl rfl
    next round hi =>
      cases h
      by_cases hset : deadLetterAfter ≤ round.failures + 1 ∧ round.events.length = 1
      · have heq : s.recordFailure i round = s.setAside i round := if_pos hset
        rw [heq]
        rw [heq] at hsame hadvanced
        exact hadvanced round rfl rfl
      · apply hsame <;>
        · unfold World.recordFailure
          rw [if_neg hset]
          rfl
    · cases h

/-! ## One cluster -/

/-- A new installation, before the first event. -/
def fresh (now first : Nat) : World ι where
  now := now
  nextXid := first + 1
  xmax := first + 1
  nextId := 1
  running := fun _ => none
  rows := []
  consumer := ⟨0, 0, 0, none, none, now⟩
  phase := fun _ => .idle
  handed := []
  dead := []

omit [DecidableEq ι] in
theorem inv_fresh (now first : Nat) : Inv (fun _ => False) (fresh now first : World ι) := by
  refine ⟨⟨?_, le_rfl, ?_, ?_, ?_, ?_, ?_, ?_⟩, ⟨Nat.succ_pos first, ?_, ?_⟩, fun _ => trivial⟩
  · exact fun x ids h => nomatch h
  · exact fun row h => nomatch h
  · exact fun row h => nomatch h
  · exact fun row h => nomatch h
  · exact fun x ids h => nomatch h
  · exact fun x ids h => nomatch h
  · exact fun x ids y ids' h => nomatch h
  · exact fun x ids h => nomatch h
  · exact fun row h => nomatch h

/-- **The trail skips nothing.**  In every run every committed event at or below the cursor was
in a round the receiver accepted or is in the dead letters, and the cursor does not move back. -/
theorem trail_skips_nothing {now first : Nat} {es : List (Event ι)}
    (h : run step es (fresh now first) = some s) :
    (∀ row ∈ s.rows, eventKey s.xmax row ≤ s.cursor → row ∈ s.handed ∨ row.id ∈ s.dead) ∧
      ∀ fs s', run step fs s = some s' → s.cursor ≤ s'.cursor := by
  have hs : Inv (fun _ => False) s := run_inv inv_step h (inv_fresh now first)
  refine ⟨fun row hrow hle => ?_, fun fs s' hrun => ?_⟩
  · rcases hs.covered hrow hle with hhanded | hdead | hfalse
    · exact .inl hhanded
    · exact .inr hdead
    · exact hfalse.elim
  · exact run_rel (I := Inv fun _ => False) (r := fun t t' => t.cursor ≤ t'.cursor)
      (fun _ => le_rfl) le_trans inv_step
      cursor_le_of_step hrun hs

/-- Two transactions whose events cross, and a round between their commits. -/
def crossing : List (Event Nat) :=
  [.assign, .assign, .insert 2, .insert 1, .commit 1, .claim 7, .read 7, .accept 7, .commit 2,
    .settle 7, .claim 7, .read 7, .accept 7, .settle 7]

def crossed : World Nat := (run step crossing (fresh 0 0)).getD (fresh 0 0)

theorem trail_skips_nothing_crossing :
    crossed.rows = [⟨some 1, 2⟩, ⟨some 2, 1⟩] ∧ crossed.cursor = toLex (2, 1) ∧
      (⟨some 2, 1⟩ ∈ crossed.handed ∨ 1 ∈ crossed.dead) := by
  have hrun : run step crossing (fresh 0 0) = some crossed := rfl
  have hrows : crossed.rows = [⟨some 1, 2⟩, ⟨some 2, 1⟩] := by decide
  refine ⟨hrows, by decide, (trail_skips_nothing hrun).1 ⟨some 2, 1⟩ ?_ (by decide)⟩
  rw [hrows]
  decide

/-- **The cursor waits.**  In every run a transaction that has not finished is ahead of the cursor, so that
what it commits is still to be read, and no two events have one number. -/
theorem cursor_waits {now first : Nat} {es : List (Event ι)}
    (h : run step es (fresh now first) = some s) :
    (∀ x ids, s.running x = some ids → s.consumer.lastXid < x) ∧
      ∀ row ∈ s.rows, ∀ row' ∈ s.rows, row.id = row'.id → row = row' := by
  have hs : Inv (fun _ => False) s := run_inv inv_step h (inv_fresh now first)
  exact ⟨hs.cursor.settled, hs.cluster.rows_inj⟩

theorem cursor_waits_crossing : ∃ s, run step (crossing.take 8) (fresh 0 0) = some s ∧
      s.running 2 = some [1] ∧ s.consumer.lastXid < 2 :=
  ⟨_, rfl, rfl, (cursor_waits (show run step (crossing.take 8) (fresh 0 0) = some _ from rfl)).1 2 [1] rfl⟩

/-! ## After a restore -/

/-- The cluster begins above every identifier it was restored with. -/
structure Above (s : World ι) : Prop where
  rows : ∀ row ∈ s.rows, row.xid.getD 0 < s.nextXid
  cursor : s.consumer.lastXid < s.nextXid

/-- An event that the consumer had passed before the restore. -/
def PassedBefore (s : World ι) (row : Row) : Prop := row ∈ s.rows ∧ rawKey row ≤ s.cursor

omit [DecidableEq ι] in
theorem Begins.inv (h : Begins s) (habove : Above s) : Inv (PassedBefore s) s := by
  have hnone : ∀ {x ids}, s.running x ≠ some ids := by
    intro x ids hx
    rw [h.running_eq] at hx
    cases hx
  have hcursor : s.consumer.lastXid < s.xmax := h.xmax_eq ▸ habove.cursor
  refine ⟨⟨fun x ids hx => absurd hx hnone, le_of_eq h.xmax_eq, ?_, h.rows_id, h.rows_inj,
    fun x ids hx => absurd hx hnone, fun x ids hx => absurd hx hnone,
    fun x ids y ids' hx => absurd hx hnone⟩, ⟨hcursor, fun x ids hx => absurd hx hnone, ?_⟩, ?_⟩
  · rw [h.xmax_eq]
    exact habove.rows
  · intro row hrow hle
    refine .inl (.inr (.inr ⟨hrow, ?_⟩))
    rw [World.cursor, cursorAt_eq hcursor]
    exact hle
  · intro i
    rw [h.phase_eq]
    trivial

/-- **The trail skips nothing after a restore**, where the cluster begins above every
identifier it was restored with: an event committed here is handed over or set aside before the cursor
passes it, and what a sweep deletes was handed over, set aside, or passed before the restore. -/
theorem restored_trail_skips_nothing {s₀ : World ι} (hbegins : Begins s₀) (habove : Above s₀)
    {es : List (Event ι)} (h : run step es s₀ = some s) :
    (∀ row ∈ s.rows, s₀.nextXid ≤ row.xid.getD 0 → eventKey s.xmax row ≤ s.cursor →
      row ∈ s.handed ∨ row.id ∈ s.dead) ∧
    ∀ picked s', step (.sweep picked) s = some s' → ∀ row ∈ s.rows, row ∉ s'.rows →
      row ∈ s.handed ∨ row.id ∈ s.dead ∨ PassedBefore s₀ row := by
  have hs : Inv (PassedBefore s₀) s :=
    run_inv inv_step h (hbegins.inv habove)
  refine ⟨fun row hrow hxid hle => ?_, fun picked s' hstep row hrow hgone => ?_⟩
  · rcases hs.covered hrow hle with hhanded | hdead | ⟨hold, -⟩
    · exact .inl hhanded
    · exact .inr hdead
    · exact absurd (habove.rows row hold) (Nat.not_lt.mpr hxid)
  · cases hstep
    apply hs.covered hrow
    by_contra hnot
    -- an event ahead of the cursor is kept
    apply hgone
    rw [mem_filter]
    refine ⟨hrow, ?_⟩
    have hunpassed : s.unpassed row = true := decide_eq_true (not_le.mp hnot)
    simp [hunpassed]

/-- A cluster restored with a cursor and one event that it had passed. -/
def restored (first cursorXid : Nat) : World Nat where
  now := 0
  nextXid := first
  xmax := first
  nextId := 2
  running := fun _ => none
  rows := [⟨some cursorXid, 1⟩]
  consumer := ⟨cursorXid, 1, 0, none, none, 0⟩
  phase := fun _ => .idle
  handed := []
  dead := []

theorem restored_begins (first cursorXid : Nat) : Begins (restored first cursorXid) := by
  refine ⟨rfl, fun _ => rfl, fun _ => rfl, ?_, ?_⟩
  · intro row hrow
    obtain rfl := mem_singleton.mp hrow
    exact Nat.lt_succ_self 1
  · intro row hrow row' hrow' _
    rw [mem_singleton.mp hrow, mem_singleton.mp hrow']

/-- An event is committed after the restore and a round is made. -/
def oneRound : List (Event Nat) :=
  [.assign, .insert 10, .commit 10, .claim 7, .read 7, .accept 7, .settle 7]

def afterRound : World Nat := (run step oneRound (restored 10 5)).getD (restored 10 5)

theorem restored_trail_skips_nothing_round : afterRound.rows = [⟨some 5, 1⟩, ⟨some 10, 2⟩] ∧
      (⟨some 10, 2⟩ ∈ afterRound.handed ∨ 2 ∈ afterRound.dead) := by
  have hrun : run step oneRound (restored 10 5) = some afterRound := rfl
  have hrows : afterRound.rows = [⟨some 5, 1⟩, ⟨some 10, 2⟩] := by decide
  have habove : Above (restored 10 5) := by
    refine ⟨fun row hrow => ?_, by decide⟩
    obtain rfl := mem_singleton.mp hrow
    decide
  refine ⟨hrows, (restored_trail_skips_nothing (restored_begins 10 5) habove hrun).1 ⟨some 10, 2⟩ ?_ ?_
    (by decide)⟩
  · rw [hrows]
    decide
  · decide

/-- An event is committed after the restore, and the cluster assigns identifiers past that of
the restored cursor before any round. -/
def pause : List (Event Nat) :=
  [.assign, .insert 2, .commit 2, .assign, .commit 3, .assign, .commit 4, .assign, .commit 5]

/-- The consumer then stands past the event, which nobody was handed, and a sweep deletes it. -/
theorem skipped_after_pause :
    (run step pause (restored 2 5)).map (fun s => (s.rows, s.handed, s.dead)) =
        some ([⟨some 5, 1⟩, ⟨some 2, 2⟩], [], []) ∧ (run step pause (restored 2 5)).map
        (fun s => decide (eventKey s.xmax ⟨some 2, 2⟩ ≤ s.cursor)) = some true ∧
      (run step (pause ++ [.sweep [2]]) (restored 2 5)).map (fun s => s.rows) =
        some [⟨some 5, 1⟩] := by
  refine ⟨?_, ?_, ?_⟩ <;> decide

end World

end Flotestro.Outbox
