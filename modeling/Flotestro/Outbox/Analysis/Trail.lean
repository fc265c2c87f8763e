import Flotestro.Outbox.Analysis.Cluster

/-!
# The trail skips nothing

A key is settled when no running transaction is as old as it: what is at or below it can never grow.
`Reaches` says that of a key together with what became of the events up to it; the cursor has it, and
so has the end of every round from the moment it is read, however late it is settled.
-/

set_option autoImplicit false

namespace Flotestro.Outbox

open Library List

namespace World

variable {ι : Type} {s s' : World ι} {passed : Row → Prop}

/-- An event was in a round the receiver accepted, is in the dead letters, or was passed
before. -/
def Covered (passed : Row → Prop) (s : World ι) (row : Row) : Prop :=
  row ∈ s.handed ∨ row.id ∈ s.dead ∨ passed row

/-- A settled key, up to which every event is covered or among those given. -/
structure Reaches (passed : Row → Prop) (s : World ι) (events : List Row) (xid n : Nat) : Prop where
  known : xid < s.xmax
  settled : ∀ x ids, s.running x = some ids → xid < x
  covers : ∀ row ∈ s.rows, rawKey row ≤ toLex (xid, n) → Covered passed s row ∨ row ∈ events

/-- What a step may do to the trail: transactions begin above the identifiers there are, and
only a running one adds events. -/
structure Grows (s s' : World ι) : Prop where
  xmax : s.xmax ≤ s'.xmax
  running : ∀ x ids, s'.running x = some ids → (∃ ids', s.running x = some ids') ∨ s.nextXid ≤ x
  rows : ∀ row ∈ s'.rows, row ∈ s.rows ∨ ∃ x ids, s.running x = some ids ∧ row.xid = some x
  handed : ∀ row ∈ s.handed, row ∈ s'.handed
  dead : ∀ i ∈ s.dead, i ∈ s'.dead

theorem Covered.grows {row : Row} (h : Covered passed s row) (hgrows : Grows s s') :
    Covered passed s' row := by
  rcases h with h | h | h
  · exact .inl (hgrows.handed row h)
  · exact .inr (.inl (hgrows.dead row.id h))
  · exact .inr (.inr h)

theorem Reaches.grows {events : List Row} {xid n : Nat} (hcluster : Cluster s)
    (h : Reaches passed s events xid n) (hgrows : Grows s s') : Reaches passed s' events xid n := by
  refine ⟨lt_of_lt_of_le h.known hgrows.xmax, fun x ids hx => ?_, fun row hrow hle => ?_⟩
  · rcases hgrows.running x ids hx with ⟨ids', hx'⟩ | hnew
    · exact h.settled x ids' hx'
    · exact lt_of_lt_of_le (lt_of_lt_of_le h.known hcluster.xmax_le) hnew
  · rcases hgrows.rows row hrow with hold | ⟨x, ids, hx, hxid⟩
    · exact (h.covers row hold hle).imp (fun hc => hc.grows hgrows) id
    · -- an event that arrives has a transaction that was running, and so a key above
      have hlt := h.settled x ids hx
      rw [rawKey_le_iff, hxid] at hle
      simp only [Option.getD_some] at hle
      omega

theorem Reaches.of_covered {events : List Row} {xid n : Nat} (h : Reaches passed s events xid n)
    (hevents : ∀ row ∈ events, Covered passed s row) : Reaches passed s [] xid n :=
  ⟨h.known, h.settled, fun row hrow hle =>
    .inl ((h.covers row hrow hle).elim id (hevents row))⟩

/-- The end of a stretch: it is settled, and what is up to it is passed or in the stretch. -/
theorem reaches_stretch (hcluster : Cluster s) {xid n failures : Nat}
    (h : Reaches passed s [] xid n) {last : Row}
    (hlast : (s.stretch xid n failures).getLast? = some last) :
    Reaches passed s (s.stretch xid n failures) (thisEpoch s.xmax last.xid) last.id := by
  have hmem : last ∈ s.stretch xid n failures := mem_of_getLast? hlast
  set picked := s.rows.filter fun row => cursorAt s.xmax xid n < eventKey s.xmax row ∧
    thisEpoch s.xmax row.xid < s.xmin with hpicked
  set sorted := picked.insertionSort fun row row' => eventKey s.xmax row ≤ eventKey s.xmax row'
    with hsorted
  set limit := if narrowAfter ≤ failures then 1 else batch
  have hrows : ∀ row, row ∈ sorted ↔ row ∈ picked := fun row => mem_insertionSort _
  have hlastPicked := (hrows last).mp (mem_of_mem_take hmem)
  rw [mem_filter, decide_eq_true_iff] at hlastPicked
  obtain ⟨hlastRow, -, hlastXmin⟩ := hlastPicked
  rw [thisEpoch_eq (hcluster.rows_xid last hlastRow)] at hlastXmin ⊢
  refine ⟨lt_of_lt_of_le hlastXmin xmin_le_xmax, fun x ids hx => ?_, fun row hrow hle => ?_⟩
  · by_cases hlt : x < s.xmax
    · exact lt_of_lt_of_le hlastXmin (xmin_le hx hlt)
    · exact lt_of_lt_of_le (lt_of_lt_of_le hlastXmin xmin_le_xmax) (Nat.not_lt.mp hlt)
  · by_cases hpassed : rawKey row ≤ toLex (xid, n)
    · exact .inl ((h.covers row hrow hpassed).elim id fun hnil => absurd hnil not_mem_nil)
    · right
      have hxid : row.xid.getD 0 ≤ last.xid.getD 0 := by
        rw [rawKey_le_iff] at hle
        omega
      have hrowSorted : row ∈ sorted := by
        rw [hrows, mem_filter, decide_eq_true_iff, cursorAt_eq h.known,
          hcluster.eventKey_eq hrow, thisEpoch_eq (hcluster.rows_xid row hrow)]
        exact ⟨hrow, not_le.mp hpassed, lt_of_le_of_lt hxid hlastXmin⟩
      rw [← take_append_drop limit sorted, mem_append] at hrowSorted
      rcases hrowSorted with htake | hdrop
      · exact htake
      · -- what was cut off has no lower key than the last that was taken
        have hpairs : sorted.Pairwise fun row row' => eventKey s.xmax row ≤ eventKey s.xmax row' :=
          pairwise_insertionSort _ _
        rw [← take_append_drop limit sorted, pairwise_append] at hpairs
        have hge := hpairs.2.2 last hmem row hdrop
        rw [hcluster.eventKey_eq hrow, hcluster.eventKey_eq hlastRow] at hge
        have hsame : rawKey row = rawKey last := le_antisymm hle hge
        have hid : row.id = last.id := congrArg (fun k => (ofLex k).2) hsame
        rw [hcluster.rows_inj row hrow last hlastRow hid]
        exact hmem

/-- What a round reaches, by what became of it. -/
def Settling (passed : Row → Prop) (s : World ι) : Phase → Prop
  | .idle => True
  | .claimed xid n _ => Reaches passed s [] xid n
  | .delivering round | .refused round =>
    Reaches passed s round.events round.lastXid round.lastId
  | .accepted round => Reaches passed s [] round.lastXid round.lastId

structure Inv (passed : Row → Prop) (s : World ι) : Prop where
  cluster : Cluster s
  cursor : Reaches passed s [] s.consumer.lastXid s.consumer.lastId
  phases : ∀ i, Settling passed s (s.phase i)

theorem Inv.phase (hs : Inv passed s) {i : ι} {phase : Phase} (hi : s.phase i = phase) :
    Settling passed s phase := hi ▸ hs.phases i

theorem Settling.grows {phase : Phase} (hcluster : Cluster s) (h : Settling passed s phase)
    (hgrows : Grows s s') : Settling passed s' phase := by
  cases phase with
  | idle => trivial
  | claimed xid n failures | delivering round | accepted round | refused round => exact Reaches.grows hcluster h hgrows

/-- A step of the cluster that leaves the consumer and its instances alone. -/
theorem Inv.cluster_step (hs : Inv passed s) (hgrows : Grows s s') (hcluster : Cluster s')
    (hconsumer : s'.consumer = s.consumer) (hphase : s'.phase = s.phase) : Inv passed s' := by
  refine ⟨hcluster, ?_, fun i => ?_⟩
  · rw [hconsumer]
    exact hs.cursor.grows hs.cluster hgrows
  · rw [hphase]
    exact (hs.phases i).grows hs.cluster hgrows

/-- The same cluster and trail, with more that was handed over or set aside. -/
structure Same (s s' : World ι) : Prop where
  nextXid : s'.nextXid = s.nextXid
  xmax : s'.xmax = s.xmax
  nextId : s'.nextId = s.nextId
  running : s'.running = s.running
  rows : s'.rows = s.rows
  handed : ∀ row ∈ s.handed, row ∈ s'.handed
  dead : ∀ i ∈ s.dead, i ∈ s'.dead

theorem Same.grows (h : Same s s') : Grows s s' := by
  refine ⟨h.xmax.ge, fun x ids hx => ?_, fun row hrow => ?_, h.handed, h.dead⟩
  · rw [h.running] at hx
    exact .inl ⟨ids, hx⟩
  · rw [h.rows] at hrow
    exact .inl hrow

theorem Same.cluster (h : Same s s') (hs : Cluster s) : Cluster s' := by
  obtain ⟨hnextXid, hxmax, hnextId, hrunning, hrows, -, -⟩ := h
  constructor
  · rw [hrunning, hnextXid]
    exact hs.running_lt
  · rw [hxmax, hnextXid]
    exact hs.xmax_le
  · rw [hrows, hxmax]
    exact hs.rows_xid
  · rw [hrows, hnextId]
    exact hs.rows_id
  · rw [hrows]
    exact hs.rows_inj
  · rw [hrunning, hnextId]
    exact hs.inserted_lt
  · rw [hrunning, hrows]
    exact hs.inserted_new
  · rw [hrunning]
    exact hs.inserted_once

/-- The cursor after it advanced reaches what it reached, or what the round did. -/
theorem Reaches.advance (hsame : Same s s') (hcluster : Cluster s)
    (hcursor : Reaches passed s [] s.consumer.lastXid s.consumer.lastId) {round : Round}
    (hround : Reaches passed s' [] round.lastXid round.lastId) :
    Reaches passed s' [] (s.advanceCursor round).lastXid (s.advanceCursor round).lastId := by
  unfold advanceCursor
  split
  · exact hround
  · exact hcursor.grows hcluster hsame.grows

section

variable [DecidableEq ι]

section
variable (hs : Inv passed s)
include hs

/-- An instance goes on, and the consumer stands where it stood or where a round ended. -/
theorem Inv.instance_step (hsame : Same s s') {i : ι} {phase : Phase}
    (hphase : s'.phase = fun j => if j = i then phase else s.phase j)
    (hsettling : Settling passed s' phase)
    (hcursor : Reaches passed s' [] s'.consumer.lastXid s'.consumer.lastId) : Inv passed s' := by
  refine ⟨hsame.cluster hs.cluster, hcursor, fun j => ?_⟩
  rw [hphase]
  dsimp only
  split
  · exact hsettling
  · exact (hs.phases j).grows hs.cluster hsame.grows

/-- An instance goes on, and the cursor stays. -/
theorem Inv.goes {i : ι} {p : Phase} (hsettling : Settling passed s p) (c : ConsumerRow ι)
    (hxid : c.lastXid = s.consumer.lastXid) (hid : c.lastId = s.consumer.lastId) :
    Inv passed ({ s with consumer := c }.move i p) := by
  have hsame : Same s ({ s with consumer := c }.move i p) :=
    ⟨rfl, rfl, rfl, rfl, rfl, fun _ h => h, fun _ h => h⟩
  refine hs.instance_step hsame rfl (hsettling.grows hs.cluster hsame.grows) ?_
  change Reaches passed _ [] c.lastXid c.lastId
  rw [hxid, hid]
  exact hs.cursor.grows hs.cluster hsame.grows

theorem inv_read {i : ι} {xid n failures : Nat}
    (hi : s.phase i = .claimed xid n failures) : Inv passed (s.read i xid n failures) := by
  have hreaches : Reaches passed s [] xid n := hs.phase hi
  unfold World.read
  split
  · apply hs.goes (p := .idle) trivial
    · split <;> rfl
    · split <;> rfl
  next last hlast =>
    exact hs.goes (p := .delivering ⟨_, failures, _, _⟩) (reaches_stretch hs.cluster hreaches hlast)
      s.consumer rfl rfl

theorem inv_claim (i : ι) : Inv passed (s.claim i) := by
  unfold World.claim
  dsimp only
  split
  · exact hs.goes (p := .claimed _ _ _) hs.cursor _ rfl rfl
  · exact hs

/-- A round is settled: its end is reached once its events are covered. -/
theorem inv_settled {i : ι} {round : Round} {dead : List Nat}
    (hdead : ∀ n ∈ s.dead, n ∈ dead)
    (hround : Reaches passed { s with dead := dead } [] round.lastXid round.lastId) :
    Inv passed ({ s with
      dead := dead
      consumer := { released (s.advanceCursor round) with
        failures := 0, nextAttemptAt := s.now } }.move i .idle) := by
  have hsame : Same s ({ s with
      dead := dead
      consumer := { released (s.advanceCursor round) with
        failures := 0, nextAttemptAt := s.now } }.move i .idle) :=
    ⟨rfl, rfl, rfl, rfl, rfl, fun _ h => h, hdead⟩
  refine hs.instance_step hsame rfl trivial ?_
  exact Reaches.advance hsame hs.cluster hs.cursor ⟨hround.known, hround.settled, hround.covers⟩

theorem inv_recordFailure {i : ι} {round : Round}
    (hround : Reaches passed s round.events round.lastXid round.lastId) :
    Inv passed (s.recordFailure i round) := by
  unfold World.recordFailure
  dsimp only
  split
  next hset =>
    obtain ⟨event, hevent⟩ := length_eq_one_iff.mp hset.2
    apply inv_settled hs
    · exact fun n hn => mem_append_left _ hn
    · have hgrows : Grows s { s with dead := s.dead ++ (round.events.take 1).map Row.id } :=
        ⟨le_rfl, fun x ids hx => .inl ⟨ids, hx⟩, fun row hrow => .inl hrow, fun _ h => h,
          fun n hn => mem_append_left _ hn⟩
      apply (hround.grows hs.cluster hgrows).of_covered
      intro row hrow
      rw [hevent, mem_singleton] at hrow
      refine .inr (.inl ?_)
      simp [hevent, hrow]
  · exact hs.goes (p := .idle) trivial _ rfl rfl

end

theorem inv_step {e : Event ι} (h : step e s = some s') (hs : Inv passed s) : Inv passed s' := by
  cases e with
  | tick elapsed =>
    cases h
    exact hs.cluster_step ⟨le_rfl, fun x ids hx => .inl ⟨ids, hx⟩, fun row hrow => .inl hrow,
      fun _ h => h, fun _ h => h⟩ ⟨hs.cluster.running_lt, hs.cluster.xmax_le, hs.cluster.rows_xid,
      hs.cluster.rows_id, hs.cluster.rows_inj, hs.cluster.inserted_lt, hs.cluster.inserted_new,
      hs.cluster.inserted_once⟩ rfl rfl
  | assign =>
    cases h
    refine hs.cluster_step ⟨le_rfl, fun x ids hx => ?_, fun row hrow => .inl hrow, fun _ h => h,
      fun _ h => h⟩ (cluster_assign hs.cluster) rfl rfl
    rcases setRunning_eq_some hx with ⟨rfl, -⟩ | ⟨-, hx⟩
    · exact .inr le_rfl
    · exact .inl ⟨ids, hx⟩
  | insert x =>
    rw [step] at h
    split at h
    next ids hrunning =>
      cases h
      refine hs.cluster_step ⟨le_rfl, fun y ids' hy => ?_, fun row hrow => .inl hrow, fun _ h => h,
        fun _ h => h⟩ (cluster_insert hs.cluster hrunning) rfl rfl
      rcases setRunning_eq_some hy with ⟨rfl, -⟩ | ⟨-, hy⟩
      · exact .inl ⟨ids, hrunning⟩
      · exact .inl ⟨ids', hy⟩
    · cases h
  | commit x =>
    rw [step] at h
    split at h
    next ids hrunning =>
      cases h
      refine hs.cluster_step ⟨le_max_left _ _, fun y ids' hy => .inl ⟨ids', (setRunning_none hy).2⟩,
        fun row hrow => ?_, fun _ h => h, fun _ h => h⟩ (cluster_commit hs.cluster hrunning) rfl rfl
      rcases mem_append.mp hrow with hrow | hrow
      · exact .inl hrow
      · obtain ⟨i, -, rfl⟩ := mem_map.mp hrow
        exact .inr ⟨x, ids, hrunning, rfl⟩
    · cases h
  | rollback x =>
    rw [step] at h
    split at h
    next ids hrunning =>
      cases h
      exact hs.cluster_step ⟨le_max_left _ _, fun y ids' hy => .inl ⟨ids', (setRunning_none hy).2⟩,
        fun row hrow => .inl hrow, fun _ h => h, fun _ h => h⟩
        (cluster_rollback hs.cluster hrunning) rfl rfl
    · cases h
  | claim i =>
    obtain ⟨-, rfl⟩ := of_guard h
    exact inv_claim hs i
  | read i =>
    rw [step] at h
    split at h
    next xid n failures hi =>
      cases h
      exact inv_read hs hi
    · cases h
  | accept i =>
    rw [step] at h
    split at h
    next round hi =>
      cases h
      have hround : Reaches passed s round.events round.lastXid round.lastId := hs.phase hi
      have hsame : Same s ({ s with handed := s.handed ++ round.events }.move i (.accepted round)) :=
        ⟨rfl, rfl, rfl, rfl, rfl, fun _ h => mem_append_left _ h, fun _ h => h⟩
      refine hs.instance_step hsame rfl ?_ (hs.cursor.grows hs.cluster hsame.grows)
      apply (hround.grows hs.cluster hsame.grows).of_covered
      exact fun row hrow => .inl (mem_append_right _ hrow)
    · cases h
  | refuse i =>
    rw [step] at h
    split at h
    next round hi =>
      cases h
      have hround : Reaches passed s round.events round.lastXid round.lastId := hs.phase hi
      exact hs.goes (p := .refused round) hround s.consumer rfl rfl
    · cases h
  | settle i =>
    rw [step] at h
    split at h
    next round hi =>
      cases h
      have hround : Reaches passed s [] round.lastXid round.lastId := hs.phase hi
      exact inv_settled hs (fun _ h => h) hround
    next round hi =>
      cases h
      exact inv_recordFailure hs (hs.phase hi)
    · cases h
  | crash i =>
    cases h
    exact hs.goes (p := .idle) trivial s.consumer rfl rfl
  | sweep picked =>
    cases h
    exact hs.cluster_step ⟨le_rfl, fun x ids hx => .inl ⟨ids, hx⟩,
      fun row hrow => .inl (mem_of_mem_filter hrow), fun _ h => h, fun _ h => h⟩
      (cluster_sweep hs.cluster _) rfl rfl

end

end World

end Flotestro.Outbox
