import Flotestro.Library.Runs
import Flotestro.RelaySpool.Analysis.Accounts
import Flotestro.RelaySpool.Analysis.Reading

/-!
# Building the index from the segments

The second pass of `rebuild` is a fold over the records of all segments, in the order they
are read.  `Indexing` is its invariant, indexed by the records seen so far: the index holds
exactly the identifiers seen and not buried, each at its last copy; the accounts agree with
the index from above always, and exactly as long as no segment holds an identifier twice;
the lists by host agree as long as no identifier is seen under two hosts.
-/

set_option autoImplicit false

namespace Flotestro.RelaySpool

open Library List

variable {env : Env} {s s' : Spool} {T : List UUID}

/-! ## Records seen -/

/-- The record a frame puts, with its place. -/
def placedOf (v : Visit) : Option Placed :=
  if v.kind = kindRecord then (decode v.body).map fun r => ⟨r, v.offset, v.size⟩ else none

/-- The log puts the records its frames decode to. -/
theorem mem_logOf_put {content : Bytes} {k : UUID} {x : Placed} : Item.put k x ∈ logOf content ↔
      x ∈ (walk content).visits.filterMap placedOf ∧ x.record.id = k := by
  have hitem : ∀ v, itemOf v = some (.put k x) ↔ placedOf v = some x ∧ x.record.id = k := by
    intro v
    unfold itemOf placedOf
    by_cases hk : v.kind = kindRecord
    · rw [if_pos hk, if_pos hk]
      cases decode v.body with
      | none => simp
      | some r =>
        simp only [Option.map_some, Option.some.injEq, Item.put.injEq]
        constructor
        · rintro ⟨rfl, rfl⟩
          exact ⟨rfl, rfl⟩
        · rintro ⟨rfl, rfl⟩
          exact ⟨rfl, rfl⟩
    · rw [if_neg hk, if_neg hk]
      cases tombstoneOf v <;> simp
  simp only [logOf, mem_filterMap, hitem]
  constructor
  · rintro ⟨v, hv, hx, hk⟩
    exact ⟨⟨v, hv, hx⟩, hk⟩
  · rintro ⟨⟨v, hv, hx⟩, hk⟩
    exact ⟨v, hv, hx, hk⟩

/-- Records with the segment each was seen in. -/
abbrev Seen := List (Nat × Placed)

/-- The records of a segment, from its frames. -/
def seenIn (id : Nat) (visits : List Visit) : Seen := (visits.filterMap placedOf).map (Prod.mk id)

/-- No segment holds an identifier twice. -/
def Seen.Single (seen : Seen) : Prop := (seen.map fun x => (x.1, x.2.record.id)).Nodup

/-- No identifier is seen under two hosts. -/
def Seen.OneHost (seen : Seen) : Prop :=
  ∀ x ∈ seen, ∀ y ∈ seen, x.2.record.id = y.2.record.id → x.2.record.hostID = y.2.record.hostID

variable {seen : Seen} {x : Nat × Placed} {id p : Nat} {n : Int}

theorem Seen.Single.of_append (h : Seen.Single (seen ++ [x])) :
    Seen.Single seen ∧ ∀ y ∈ seen, y.1 = x.1 → y.2.record.id ≠ x.2.record.id := by
  unfold Seen.Single at h ⊢
  rw [map_append, nodup_append] at h
  refine ⟨h.1, fun y hy h1 h2 => ?_⟩
  exact h.2.2 _ (mem_map.mpr ⟨y, hy, rfl⟩) _ (mem_singleton_self _)
    (Prod.ext h1 h2)

theorem Seen.OneHost.of_append (h : Seen.OneHost (seen ++ [x])) : Seen.OneHost seen ∧
      ∀ y ∈ seen, y.2.record.id = x.2.record.id → y.2.record.hostID = x.2.record.hostID :=
  ⟨fun a ha b hb => h a (mem_append_left _ ha) b (mem_append_left _ hb),
    fun y hy => h y (mem_append_left _ hy) x (by simp)⟩

def seenEntry (env : Env) (x : Nat × Placed) : Entry :=
  entryOf env x.2.record x.2.size x.1 x.2.offset

/-- The index holds what was seen and is not buried, at its last copy. -/
structure Entered (env : Env) (T : List UUID) (seen : Seen) (s : Spool) : Prop where
  lt : ∀ id p, s.index.lookup id = some p → p < s.nextPtr
  id : ∀ id p, s.index.lookup id = some p → (s.heap p).id = id
  all : ∀ p < s.nextPtr, s.index.lookup (s.heap p).id = some p
  sound : ∀ id p, s.index.lookup id = some p →
    id ∉ T ∧ ∃ x ∈ seen, x.2.record.id = id ∧ s.heap p = seenEntry env x
  complete : ∀ x ∈ seen, x.2.record.id ∉ T →
    ∃ p, s.index.lookup x.2.record.id = some p ∧ x.1 ≤ (s.heap p).segment

section
variable (h : Entered env T seen s)
include h

theorem Entered.mem_pointers_iff : p ∈ s.pointers ↔ p < s.nextPtr := by
  rw [mem_pointers]
  exact ⟨fun ⟨id, hid⟩ => h.lt id p hid, fun hp => ⟨_, h.all p hp⟩⟩

theorem Entered.nodup_pointers : s.pointers.Nodup :=
  nodup_values h.id

theorem Entered.congr (hindex : s'.index = s.index)
    (hheap : s'.heap = s.heap) (hnext : s'.nextPtr = s.nextPtr) : Entered env T seen s' := by
  obtain ⟨hlt, hid, hall, hsound, hcomplete⟩ := h
  rw [← hindex, ← hheap] at hsound hcomplete hid hall
  rw [← hindex, ← hnext] at hlt
  rw [← hnext] at hall
  exact ⟨hlt, hid, hall, hsound, hcomplete⟩

/-- A buried record is passed over. -/
theorem Entered.skip (hx : x.2.record.id ∈ T) :
    Entered env T (seen ++ [x]) s where
  __ := h
  sound id p hp := by
    obtain ⟨hT, y, hy, hid, hheap⟩ := h.sound id p hp
    exact ⟨hT, y, mem_append_left _ hy, hid, hheap⟩
  complete := forall_mem_concat h.complete (absurd hx)

/-- A later copy takes the place. -/
theorem Entered.supersede (hx : x.2.record.id ∉ T)
    (hp : s.index.lookup x.2.record.id = some p) (hle : ∀ y ∈ seen, y.1 ≤ x.1) :
    Entered env T (seen ++ [x]) (s.supersede p (seenEntry env x)) := by
  have hheap : ∀ q, (s.supersede p (seenEntry env x)).heap q =
      if q = p then seenEntry env x else s.heap q := fun q => Function.update_apply _ _ _ _
  have hids : ∀ q, ((s.supersede p (seenEntry env x)).heap q).id = (s.heap q).id := by
    intro q
    rw [hheap]
    split
    next hq =>
      rw [hq, h.id _ p hp]
      rfl
    · rfl
  refine ⟨h.lt, fun id q hq => ?_, fun q hq => ?_, fun id q hq => ?_, fun y hy hT => ?_⟩
  · rw [hids]
    exact h.id id q hq
  · rw [hids]
    exact h.all q hq
  · have hq' : s.index.lookup id = some q := hq
    rw [hheap]
    by_cases hqp : q = p
    · subst hqp
      rw [if_pos rfl]
      have hid : x.2.record.id = id := (h.id _ q hp).symm.trans (h.id id q hq')
      exact ⟨hid ▸ hx, x, by simp, hid, rfl⟩
    · rw [if_neg hqp]
      obtain ⟨hT, y, hy, hid, hy'⟩ := h.sound id q hq'
      exact ⟨hT, y, mem_append_left _ hy, hid, hy'⟩
  · rcases mem_append.mp hy with hy | hy
    · obtain ⟨q, hq, hseg⟩ := h.complete y hy hT
      refine ⟨q, hq, ?_⟩
      rw [hheap]
      split
      · exact hle y hy
      · exact hseg
    · rw [mem_singleton.mp hy]
      exact ⟨p, hp, by rw [hheap, if_pos rfl]; exact le_refl _⟩

/-- A new identifier is entered. -/
theorem Entered.add (hx : x.2.record.id ∉ T) (hnew : s.index.lookup x.2.record.id = none) :
    Entered env T (seen ++ [x]) (s.addEntry (seenEntry env x)) := by
  have hlookup : ∀ id, (s.addEntry (seenEntry env x)).index.lookup id =
      if id = x.2.record.id then some s.nextPtr else s.index.lookup id :=
    fun id => lookup_insert_ite _ _ _ _
  have hheap : ∀ q, (s.addEntry (seenEntry env x)).heap q =
      if q = s.nextPtr then seenEntry env x else s.heap q := fun q => Function.update_apply _ _ _ _
  have hnext : (s.addEntry (seenEntry env x)).nextPtr = s.nextPtr + 1 := rfl
  refine ⟨fun id q hq => ?_, fun id q hq => ?_, fun q hq => ?_, fun id q hq => ?_,
    fun y hy hT => ?_⟩
  · rw [hlookup] at hq
    split at hq
    · cases hq
      omega
    · have := h.lt id q hq
      omega
  · rw [hlookup] at hq
    split at hq
    next hid =>
      cases hq
      rw [hheap, if_pos rfl, hid]
      rfl
    · rw [hheap, if_neg (h.lt id q hq).ne]
      exact h.id id q hq
  · rw [hheap, hlookup]
    by_cases hqn : q = s.nextPtr
    · rw [if_pos hqn, hqn]
      exact if_pos rfl
    have hall := h.all q (by omega)
    rw [if_neg hqn, if_neg, hall]
    intro hid
    rw [hid, hnew] at hall
    cases hall
  · rw [hlookup] at hq
    split at hq
    next hid =>
      cases hq
      rw [hheap, if_pos rfl]
      exact ⟨hid ▸ hx, x, by simp, hid.symm, rfl⟩
    · rw [hheap, if_neg (h.lt id q hq).ne]
      obtain ⟨hT, y, hy, hid, hy'⟩ := h.sound id q hq
      exact ⟨hT, y, mem_append_left _ hy, hid, hy'⟩
  · rw [hlookup]
    rcases mem_append.mp hy with hy | hy
    · obtain ⟨q, hq, hseg⟩ := h.complete y hy hT
      have hne : y.2.record.id ≠ x.2.record.id := by
        intro heq
        rw [heq, hnew] at hq
        cases hq
      refine ⟨q, by rw [if_neg hne]; exact hq, ?_⟩
      rw [hheap, if_neg (h.lt _ q hq).ne]
      exact hseg
    · rw [mem_singleton.mp hy]
      exact ⟨s.nextPtr, if_pos rfl, by rw [hheap, if_pos rfl]; exact le_refl _⟩

end

/-- The accounts while the segment `id` is being read, `n` being its counter so far. -/
structure Counted (id : Nat) (seen : Seen) (s : Spool) (n : Int) : Prop where
  live : s.live = s.fill
  fresh : id ∉ s.segments
  low : ∀ g st, s.segments.lookup g = some st → (s.standing g : Int) ≤ st.live
  low_now : (s.standing id : Int) ≤ n
  high : seen.Single → ∀ g st, s.segments.lookup g = some st →
    st.live ≤ (s.standing g : Int)
  high_now : seen.Single → n ≤ (s.standing id : Int)
  hosted : seen.OneHost → s.Hosted

theorem Counted.skip (h : Counted id seen s n) (x : Nat × Placed) :
    Counted id (seen ++ [x]) s n where
  __ := h
  high hs := h.high hs.of_append.1
  high_now hs := h.high_now hs.of_append.1
  hosted ho := h.hosted ho.of_append.1

theorem Counted.ne_of_lookup {g : Nat} {st : SegmentState} (h : Counted id seen s n)
    (hst : s.segments.lookup g = some st) : id ≠ g := by
  rintro rfl
  exact h.fresh (AList.lookup_isSome.mp (by rw [hst]; rfl))

/-- A new record is counted. -/
theorem Counted.add (h : Counted id seen s n) (he : Entered env T seen s) (hid : x.1 = id)
    (hnew : s.index.lookup x.2.record.id = none) :
    Counted id (seen ++ [x]) (s.addEntry (seenEntry env x)) (n + 1) := by
  have hptr : s.nextPtr ∉ s.pointers := fun hp => Nat.lt_irrefl _ (he.mem_pointers_iff.mp hp)
  have hnotmem : (seenEntry env x).id ∉ s.index := AList.lookup_eq_none.mp hnew
  have htotal : ∀ f, (s.addEntry (seenEntry env x)).total f = s.total f + f (seenEntry env x) :=
    fun f => total_add f rfl hnotmem rfl hptr
  have hstanding : ∀ g, (s.addEntry (seenEntry env x)).standing g =
      s.standing g + if id = g then 1 else 0 := by
    intro g
    rw [standing_eq_total, htotal, ← standing_eq_total, inSegment, seenEntry, entryOf_segment, hid]
  refine ⟨?_, h.fresh, fun g st hst => ?_, ?_, fun hs g st hst => ?_, fun hs => ?_, fun ho => ?_⟩
  · show s.live + ((seenEntry env x).size : Int) = _
    have := h.live
    rw [fill_eq_total, htotal, ← fill_eq_total]
    omega
  · rw [hstanding, if_neg (h.ne_of_lookup hst)]
    exact h.low g st hst
  · have := h.low_now
    rw [hstanding, if_pos rfl]
    omega
  · rw [hstanding, if_neg (h.ne_of_lookup hst)]
    exact h.high hs.of_append.1 g st hst
  · have := h.high_now hs.of_append.1
    rw [hstanding, if_pos rfl]
    omega
  · exact (h.hosted ho.of_append.1).addEntry hnotmem hptr

/-- The copy replaced is no longer counted. -/
theorem Counted.supersede (h : Counted id seen s n) (he : Entered env T seen s) (hid : x.1 = id)
    (hp : s.index.lookup x.2.record.id = some p) :
    Counted id (seen ++ [x]) (s.supersede p (seenEntry env x)) (n + 1) := by
  have hpp : p ∈ s.pointers := mem_pointers.mpr ⟨_, hp⟩
  obtain ⟨-, y, hy, hyid, hyheap⟩ := he.sound _ p hp
  have htotal : ∀ f, (s.supersede p (seenEntry env x)).total f + f (s.heap p) =
      s.total f + f (seenEntry env x) := fun f => total_move f he.nodup_pointers hpp rfl rfl
  have hstanding : ∀ g, (s.supersede p (seenEntry env x)).standing g +
      (if (s.heap p).segment = g then 1 else 0) = s.standing g + if id = g then 1 else 0 := by
    intro g
    have hsum := htotal (inSegment g)
    have hnew : inSegment g (seenEntry env x) = if id = g then 1 else 0 := by
      rw [inSegment, seenEntry, entryOf_segment, hid]
    rw [standing_eq_total, standing_eq_total, ← hnew]
    exact hsum
  -- what the old copy leaves of the counter of a segment already read
  have hcounter : ∀ g st, (s.supersede p (seenEntry env x)).segments.lookup g = some st →
      ∃ st₀, s.segments.lookup g = some st₀ ∧
        st.live + s.standing g = st₀.live + (s.supersede p (seenEntry env x)).standing g := by
    intro g st hst
    have hsum := hstanding g
    obtain ⟨st₀, hst₀, rfl⟩ := exists_of_lookup_modify hst
    rw [if_neg (h.ne_of_lookup hst₀)] at hsum
    refine ⟨st₀, hst₀, ?_⟩
    by_cases hg : g = (s.heap p).segment
    · rw [if_pos hg.symm] at hsum
      rw [if_pos hg]
      dsimp only
      omega
    · rw [if_neg (Ne.symm hg)] at hsum
      rw [if_neg hg]
      omega
  refine ⟨?_, ?_, fun g st hst => ?_, ?_, fun hs g st hst => ?_, fun hs => ?_, fun ho => ?_⟩
  · show s.live - ((s.heap p).size : Int) + ((seenEntry env x).size : Int) = _
    have hlive := h.live
    have hfill := htotal Entry.size
    rw [fill_eq_total] at hlive ⊢
    omega
  · show id ∉ modify s.segments _ _
    rw [modify_keys]
    exact h.fresh
  · obtain ⟨st₀, hst₀, hlive⟩ := hcounter g st hst
    have hlow := h.low g st₀ hst₀
    omega
  · have hlow := h.low_now
    have := hstanding id
    rw [if_pos rfl] at this
    omega
  · obtain ⟨st₀, hst₀, hlive⟩ := hcounter g st hst
    have hhigh := h.high hs.of_append.1 g st₀ hst₀
    omega
  · -- the old copy stands elsewhere, for no segment holds the identifier twice
    have hother : (s.heap p).segment ≠ id := by
      intro hseg
      refine hs.of_append.2 y hy ?_ hyid
      rw [hid, ← hseg, hyheap]
      rfl
    have hhigh := h.high_now hs.of_append.1
    have := hstanding id
    rw [if_pos rfl, if_neg hother] at this
    omega
  · refine (h.hosted ho.of_append.1).congr rfl rfl (update_field Entry.hostID s.heap p ?_)
    rw [hyheap]
    exact (ho.of_append.2 y hy hyid).symm

/-! ## The fold over one segment -/

/-- The invariant of the second pass while the segment `id` is being read. -/
structure Indexing (env : Env) (T : List UUID) (id : Nat) (seen : Seen) (acc : Spool × Int) :
    Prop where
  entered : Entered env T seen acc.1
  counted : Counted id seen acc.1 acc.2
  le : ∀ x ∈ seen, x.1 ≤ id

/-- One frame keeps the invariant. -/
theorem Indexing.visit {acc : Spool × Int} (h : Indexing env T id seen acc) (v : Visit) :
    Indexing env T id (seen ++ seenIn id [v]) (indexVisit env T id acc v) := by
  obtain ⟨s, n⟩ := acc
  unfold indexVisit
  by_cases hk : v.kind = kindRecord
  · rw [if_neg (not_not.mpr hk)]
    cases hd : decode v.body with
    | none =>
      have hnone : seenIn id [v] = [] := by simp [seenIn, placedOf, hd]
      rw [hnone, append_nil]
      obtain ⟨he, hc, hle⟩ := h
      exact ⟨{ he with },
        { hc with }, hle⟩
    | some r =>
      have hone : seenIn id [v] = [(id, ⟨r, v.offset, v.size⟩)] := by
        simp [seenIn, placedOf, hk, hd]
      have hle : ∀ x ∈ seen ++ [(id, (⟨r, v.offset, v.size⟩ : Placed))], x.1 ≤ id :=
        forall_mem_concat h.le (Nat.le_refl id)
      rw [hone]
      simp only
      split
      next hT =>
        exact ⟨h.entered.skip hT, h.counted.skip _, hle⟩
      rename_i hT
      rw [indexEntry]
      cases hl : s.index.lookup r.id with
      | none =>
        simp only [entryOf_id, hl]
        exact ⟨h.entered.add hT hl, h.counted.add h.entered rfl hl, hle⟩
      | some p =>
        simp only [entryOf_id, hl]
        exact ⟨h.entered.supersede hT hl h.le, h.counted.supersede h.entered rfl hl, hle⟩
  · have hnone : seenIn id [v] = [] := by simp [seenIn, placedOf, hk]
    rw [if_pos hk, hnone, append_nil]
    exact h

/-- So do all frames of a segment. -/
theorem Indexing.visits {acc : Spool × Int} (h : Indexing env T id seen acc) (visits : List Visit) :
    Indexing env T id (seen ++ seenIn id visits) (visits.foldl (indexVisit env T id) acc) := by
  induction visits generalizing seen acc with
  | nil =>
    rw [show seenIn id [] = [] from rfl, append_nil]
    exact h
  | cons v visits ih =>
    have hsplit : seenIn id (v :: visits) = seenIn id [v] ++ seenIn id visits := by
      unfold seenIn
      rw [← map_append, ← filterMap_append]
      rfl
    rw [hsplit, ← append_assoc]
    exact ih (h.visit v)

end Flotestro.RelaySpool
