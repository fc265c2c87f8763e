import Flotestro.Outbox.Model.Outbox

/-!
# The cluster under the trail

What holds of identifiers and numbers in every state: a running transaction has an identifier below the
next one, a committed one is below the first that has not finished, and a number is of one event.  The
key of a committed event is then the one it was written with, in every snapshot.
-/

set_option autoImplicit false

namespace Flotestro.Outbox

open Library List

namespace World

variable {ι : Type} {s : World ι}

/-- The key of an event whose transaction this cluster knows. -/
def rawKey (row : Row) : Key := toLex (row.xid.getD 0, row.id)

/-- What the cluster keeps: identifiers below the next one, and one number for one event. -/
structure Cluster (s : World ι) : Prop where
  running_lt : ∀ x ids, s.running x = some ids → x < s.nextXid
  xmax_le : s.xmax ≤ s.nextXid
  rows_xid : ∀ row ∈ s.rows, row.xid.getD 0 < s.xmax
  rows_id : ∀ row ∈ s.rows, row.id < s.nextId
  rows_inj : ∀ row ∈ s.rows, ∀ row' ∈ s.rows, row.id = row'.id → row = row'
  inserted_lt : ∀ x ids, s.running x = some ids → ∀ i ∈ ids, i < s.nextId
  inserted_new : ∀ x ids, s.running x = some ids → ∀ i ∈ ids, ∀ row ∈ s.rows, row.id ≠ i
  inserted_once : ∀ x ids y ids', s.running x = some ids → s.running y = some ids' →
    ∀ i ∈ ids, i ∈ ids' → x = y

/-- Keys compare by transaction, then by number. -/
theorem rawKey_le_iff {row : Row} {xid n : Nat} : rawKey row ≤ toLex (xid, n) ↔
    row.xid.getD 0 < xid ∨ row.xid.getD 0 = xid ∧ row.id ≤ n := Prod.Lex.toLex_le_toLex

/-- An identifier below the snapshot is of this cluster. -/
theorem thisEpoch_eq {xmax : Nat} {xid : Option Nat} (h : xid.getD 0 < xmax) :
    thisEpoch xmax xid = xid.getD 0 := by
  cases xid with
  | none => rfl
  | some x => exact if_neg (Nat.not_le.mpr h)

/-- The key of a row is the one it was written with. -/
theorem Cluster.eventKey_eq (h : Cluster s) {row : Row} (hrow : row ∈ s.rows) :
    eventKey s.xmax row = rawKey row := by
  rw [eventKey, thisEpoch_eq (h.rows_xid row hrow), rawKey]

/-- So is a cursor below the snapshot. -/
theorem cursorAt_eq {xmax xid n : Nat} (h : xid < xmax) : cursorAt xmax xid n = toLex (xid, n) := by
  rw [cursorAt, thisEpoch_eq (by simpa using h), Option.getD_some]

variable {x : Nat} {ids : List Nat}

/-- A running transaction holds the horizon back. -/
theorem xmin_le (hx : s.running x = some ids) (hlt : x < s.xmax) : s.xmin ≤ x := by
  unfold xmin
  split
  next y hy =>
    by_contra hnot
    have hsome : (s.running x).isSome = true := by rw [hx]; rfl
    have hnone := (find?_range_eq_some.mp hy).2.2 x (Nat.not_le.mp hnot)
    simp [hsome] at hnone
  next hnone =>
    have hsome := find?_eq_none.mp hnone x (mem_range.mpr hlt)
    simp [hx] at hsome

/-- The horizon is within the snapshot. -/
theorem xmin_le_xmax : s.xmin ≤ s.xmax := by
  unfold xmin
  split
  next y hy => exact le_of_lt (mem_range.mp (mem_of_find?_eq_some hy))
  · exact le_rfl

/-- What is found running was set, or was running. -/
theorem setRunning_eq_some {y : Nat} {inserted : Option (List Nat)}
    (h : (s.setRunning x inserted).running y = some ids) :
    y = x ∧ inserted = some ids ∨ y ≠ x ∧ s.running y = some ids := by
  unfold setRunning at h
  dsimp only at h
  split at h
  next heq => exact .inl ⟨heq, h⟩
  next hne => exact .inr ⟨hne, h⟩

/-- A transaction begins. -/
theorem cluster_assign (hs : Cluster s) :
    Cluster { s.setRunning s.nextXid (some []) with nextXid := s.nextXid + 1 } := by
  have hold : ∀ x ids, (s.setRunning s.nextXid (some [])).running x = some ids → ∀ i ∈ ids,
      s.running x = some ids := by
    intro x ids hx i hi
    rcases setRunning_eq_some hx with ⟨-, hids⟩ | ⟨-, hx⟩
    · cases hids
      cases hi
    · exact hx
  refine ⟨fun x ids hx => ?_, Nat.le_succ_of_le hs.xmax_le, hs.rows_xid, hs.rows_id, hs.rows_inj,
    fun x ids hx i hi => hs.inserted_lt x ids (hold x ids hx i hi) i hi,
    fun x ids hx i hi => hs.inserted_new x ids (hold x ids hx i hi) i hi,
    fun x ids y ids' hx hy i hi hi' =>
      hs.inserted_once x ids y ids' (hold x ids hx i hi) (hold y ids' hy i hi') i hi hi'⟩
  rcases setRunning_eq_some hx with ⟨rfl, -⟩ | ⟨-, hx⟩
  · exact Nat.lt_succ_self _
  · exact Nat.lt_succ_of_lt (hs.running_lt x ids hx)

/-- A transaction inserts an event. -/
theorem cluster_insert (hs : Cluster s) (hrunning : s.running x = some ids) :
    Cluster { s.setRunning x (some (ids ++ [s.nextId])) with nextId := s.nextId + 1 } := by
  -- a number of a transaction is one it had, or the next of all
  have hcases : ∀ y ids', (s.setRunning x (some (ids ++ [s.nextId]))).running y = some ids' →
      ∀ i ∈ ids', (∃ old, s.running y = some old ∧ i ∈ old) ∨ y = x ∧ i = s.nextId := by
    intro y ids' hy i hi
    rcases setRunning_eq_some hy with ⟨rfl, hids⟩ | ⟨-, hy⟩
    · cases hids
      rcases mem_append.mp hi with hi | hi
      · exact .inl ⟨ids, hrunning, hi⟩
      · exact .inr ⟨rfl, mem_singleton.mp hi⟩
    · exact .inl ⟨ids', hy, hi⟩
  refine ⟨fun y ids' hy => ?_, hs.xmax_le, hs.rows_xid,
    fun row hrow => Nat.lt_succ_of_lt (hs.rows_id row hrow), hs.rows_inj, ?_, ?_, ?_⟩
  · rcases setRunning_eq_some hy with ⟨rfl, -⟩ | ⟨-, hy⟩
    · exact hs.running_lt y ids hrunning
    · exact hs.running_lt y ids' hy
  · intro y ids' hy i hi
    rcases hcases y ids' hy i hi with ⟨old, hold, hi⟩ | ⟨-, rfl⟩
    · exact Nat.lt_succ_of_lt (hs.inserted_lt y old hold i hi)
    · exact Nat.lt_succ_self _
  · intro y ids' hy i hi row hrow
    rcases hcases y ids' hy i hi with ⟨old, hold, hi⟩ | ⟨-, rfl⟩
    · exact hs.inserted_new y old hold i hi row hrow
    · exact (hs.rows_id row hrow).ne
  · intro y ids' z ids'' hy hz i hi hi'
    rcases hcases y ids' hy i hi with ⟨old, hold, hi⟩ | ⟨rfl, rfl⟩
    · rcases hcases z ids'' hz i hi' with ⟨old', hold', hi'⟩ | ⟨rfl, rfl⟩
      · exact hs.inserted_once y old z old' hold hold' i hi hi'
      · exact absurd (hs.inserted_lt y old hold _ hi) (lt_irrefl _)
    · rcases hcases z ids'' hz _ hi' with ⟨old', hold', hi'⟩ | ⟨rfl, -⟩
      · exact absurd (hs.inserted_lt z old' hold' _ hi') (lt_irrefl _)
      · rfl

/-- What runs after one has ended ran before. -/
theorem setRunning_none {y : Nat} (h : (s.setRunning x none).running y = some ids) :
    y ≠ x ∧ s.running y = some ids := by
  rcases setRunning_eq_some h with ⟨-, hnone⟩ | h
  · cases hnone
  · exact h

/-- A transaction is rolled back. -/
theorem cluster_rollback (hs : Cluster s) (hrunning : s.running x = some ids) :
    Cluster { s.setRunning x none with xmax := max s.xmax (x + 1) } :=
  ⟨fun y ids' hy => hs.running_lt y ids' (setRunning_none hy).2,
    max_le hs.xmax_le (hs.running_lt x ids hrunning),
    fun row hrow => lt_of_lt_of_le (hs.rows_xid row hrow) (le_max_left _ _), hs.rows_id, hs.rows_inj,
    fun y ids' hy => hs.inserted_lt y ids' (setRunning_none hy).2,
    fun y ids' hy => hs.inserted_new y ids' (setRunning_none hy).2,
    fun y ids' z ids'' hy hz =>
      hs.inserted_once y ids' z ids'' (setRunning_none hy).2 (setRunning_none hz).2⟩

/-- A transaction commits its events. -/
theorem cluster_commit (hs : Cluster s) (hrunning : s.running x = some ids) :
    Cluster { s.setRunning x none with
      xmax := max s.xmax (x + 1)
      rows := s.rows ++ ids.map fun i => ⟨some x, i⟩ } := by
  have hcases : ∀ row ∈ s.rows ++ ids.map (fun i => (⟨some x, i⟩ : Row)),
      row ∈ s.rows ∨ ∃ i ∈ ids, row = ⟨some x, i⟩ := by
    intro row hrow
    rcases mem_append.mp hrow with hrow | hrow
    · exact .inl hrow
    · obtain ⟨i, hi, rfl⟩ := mem_map.mp hrow
      exact .inr ⟨i, hi, rfl⟩
  have hended := cluster_rollback hs hrunning
  refine ⟨hended.running_lt, hended.xmax_le, fun row hrow => ?_, fun row hrow => ?_, ?_,
    hended.inserted_lt, ?_, hended.inserted_once⟩
  · rcases hcases row hrow with hrow | ⟨i, hi, rfl⟩
    · exact hended.rows_xid row hrow
    · exact lt_of_lt_of_le (Nat.lt_succ_self x) (le_max_right _ _)
  · rcases hcases row hrow with hrow | ⟨i, hi, rfl⟩
    · exact hs.rows_id row hrow
    · exact hs.inserted_lt x ids hrunning i hi
  · intro row hrow row' hrow' hid
    rcases hcases row hrow with hrow | ⟨i, hi, rfl⟩
    · rcases hcases row' hrow' with hrow' | ⟨j, hj, rfl⟩
      · exact hs.rows_inj row hrow row' hrow' hid
      · exact absurd hid (hs.inserted_new x ids hrunning j hj row hrow)
    · rcases hcases row' hrow' with hrow' | ⟨j, hj, rfl⟩
      · exact absurd hid.symm (hs.inserted_new x ids hrunning i hi row' hrow')
      · obtain rfl : i = j := hid
        rfl
  · intro y ids' hy i hi row hrow
    obtain ⟨hne, hy⟩ := setRunning_none hy
    rcases hcases row hrow with hrow | ⟨j, hj, rfl⟩
    · exact hs.inserted_new y ids' hy i hi row hrow
    · intro heq
      obtain rfl : j = i := heq
      exact hne (hs.inserted_once y ids' x ids hy hrunning j hi hj)

/-- Events are swept. -/
theorem cluster_sweep (hs : Cluster s) (p : Row → Bool) : Cluster { s with rows := s.rows.filter p } :=
  ⟨hs.running_lt, hs.xmax_le, fun row hrow => hs.rows_xid row (mem_of_mem_filter hrow),
    fun row hrow => hs.rows_id row (mem_of_mem_filter hrow),
    fun row hrow row' hrow' =>
      hs.rows_inj row (mem_of_mem_filter hrow) row' (mem_of_mem_filter hrow'),
    hs.inserted_lt,
    fun x ids hx i hi row hrow => hs.inserted_new x ids hx i hi row (mem_of_mem_filter hrow),
    hs.inserted_once⟩

end World

end Flotestro.Outbox
