import Flotestro.RelaySpool.Analysis.Invariants
import Flotestro.RelaySpool.Interface.Accounts

/-!
# Keeping the accounts

Both the fill and the number of entries in a segment are sums over the index, so one lemma
for each way the index changes (`total_add`, `total_drop`, `total_move`) serves both.  The
accounts follow for every command but a compaction and a start of the process, which have
their own modules.
-/

set_option autoImplicit false

namespace Flotestro.RelaySpool

open Library List

variable {env : Env} {s s' : Spool}

/-! ## Sums over the index -/

/-- A sum over the indexed entries. -/
def Spool.total (s : Spool) (f : Entry → Nat) : Nat := (s.pointers.map fun p => f (s.heap p)).sum

def inSegment (g : Nat) (e : Entry) : Nat := if e.segment = g then 1 else 0

theorem fill_eq_total (s : Spool) : s.fill = s.total Entry.size := rfl

theorem standing_eq_total (s : Spool) (g : Nat) : s.standing g = s.total (inSegment g) := by
  unfold Spool.standing Spool.total
  induction s.pointers with
  | nil => rfl
  | cons p l ih =>
    rw [countP_cons, ih, map_cons, inSegment]
    by_cases hp : (s.heap p).segment = g <;> simp [Nat.add_comm]

theorem standing_eq_zero_iff (s : Spool) (g : Nat) :
    s.standing g = 0 ↔ ∀ p ∈ s.pointers, (s.heap p).segment ≠ g := by
  simp [Spool.standing]

theorem total_congr {f : Entry → Nat} (hindex : s'.index = s.index)
    (hheap : ∀ p ∈ s.pointers, f (s'.heap p) = f (s.heap p)) : s'.total f = s.total f := by
  unfold Spool.total
  rw [Spool.pointers, hindex]
  exact congrArg List.sum (map_congr_left hheap)

theorem standing_congr (hindex : s'.index = s.index) (hheap : s'.heap = s.heap) (g : Nat) :
    s'.standing g = s.standing g := by
  unfold Spool.standing Spool.pointers
  rw [hindex, hheap]

theorem fill_congr (hindex : s'.index = s.index) (hheap : s'.heap = s.heap) : s'.fill = s.fill := by
  unfold Spool.fill Spool.pointers
  rw [hindex, hheap]

variable {p : Nat} {a : Segment}

theorem total_add {id : UUID} {e : Entry} (f : Entry → Nat)
    (hindex : s'.index = s.index.insert id p) (hid : id ∉ s.index)
    (hheap : s'.heap = Function.update s.heap p e) (hp : p ∉ s.pointers) :
    s'.total f = s.total f + f e := by
  have hpointers : s'.pointers = p :: s.pointers := by
    rw [Spool.pointers, hindex, AList.entries_insert_of_notMem hid]
    rfl
  unfold Spool.total
  rw [hpointers, map_cons, sum_cons, hheap, Function.update_self,
    map_update_of_notMem hp, Nat.add_comm]

theorem total_drop {id : UUID} (f : Entry → Nat) (hlookup : s.index.lookup id = some p)
    (hindex : s'.index = s.index.erase id) (hheap : s'.heap = s.heap) :
    s'.total f + f (s.heap p) = s.total f := by
  have hperm := ((perm_cons_erase hlookup).map (·.2)).map fun q => f (s.heap q)
  have hsum := hperm.sum_eq
  rw [map_cons, map_cons, sum_cons] at hsum
  unfold Spool.total
  rw [Spool.pointers, hindex, hheap, Spool.pointers, hsum, Nat.add_comm]

theorem total_move {e : Entry} (f : Entry → Nat) (hnodup : s.pointers.Nodup) (hp : p ∈ s.pointers)
    (hindex : s'.index = s.index) (hheap : s'.heap = Function.update s.heap p e) :
    s'.total f + f (s.heap p) = s.total f + f e := by
  have hsum := sum_map_update hnodup hp s.heap e f
  unfold Spool.total
  rw [Spool.pointers, hindex, hheap]
  exact hsum

theorem exists_of_lookup_modify {α β : Type} [DecidableEq α] {m : AList fun _ : α => β} {k k' : α}
    {f : β → β} {v : β} (h : (modify m k f).lookup k' = some v) :
    ∃ v₀, m.lookup k' = some v₀ ∧ v = if k' = k then f v₀ else v₀ := by
  unfold modify at h
  split at h
  next hnone =>
    refine ⟨v, h, (if_neg ?_).symm⟩
    rintro rfl
    rw [hnone] at h
    cases h
  next w hw =>
    rw [lookup_insert_ite] at h
    split at h
    next hk =>
      cases h
      exact ⟨w, hk ▸ hw, (if_pos hk).symm⟩
    next hk =>
      exact ⟨v, h, (if_neg hk).symm⟩

theorem hostList_insert {h : Bytes} {l : List Nat} (hby : s'.byHost = s.byHost.insert h l)
    (h' : Bytes) : s'.hostList h' = if h' = h then l else s.hostList h' := by
  rw [Spool.hostList, hby, lookup_insert_ite]
  split
  · rfl
  · rfl

/-- A list that is emptied is taken out of the map, which reads as an empty list. -/
theorem hostList_dropEntry (s : Spool) (p : Nat) (h : Bytes) :
    (s.dropEntry p).hostList h =
      if h = (s.heap p).hostID then (s.hostList h).erase p else s.hostList h := by
  have hby : (s.dropEntry p).byHost =
      if (s.hostList (s.heap p).hostID).erase p = [] then s.byHost.erase (s.heap p).hostID
      else s.byHost.insert (s.heap p).hostID ((s.hostList (s.heap p).hostID).erase p) := rfl
  rw [Spool.hostList, hby]
  by_cases hh : h = (s.heap p).hostID
  · subst hh
    rw [if_pos rfl]
    split
    next hl =>
      rw [AList.lookup_erase, hl]
      rfl
    · rw [AList.lookup_insert]
      rfl
  · split
    · rw [AList.lookup_erase_ne hh]
      rfl
    · rw [AList.lookup_insert_ne hh]
      rfl

theorem entombed_live_lookup (s : Spool) (a : Segment) (p g : Nat) {st : SegmentState}
    (h : (s.entombed a p).segments.lookup g = some st) :
    ∃ st₀, s.segments.lookup g = some st₀ ∧
      st.live = st₀.live - if (s.heap p).segment = g then 1 else 0 := by
  obtain ⟨st₁, hst₁, rfl⟩ := exists_of_lookup_modify h
  obtain ⟨st₀, hst₀, rfl⟩ := exists_of_lookup_modify hst₁
  refine ⟨st₀, hst₀, ?_⟩
  by_cases hg : g = (s.heap p).segment
  · rw [if_pos hg, if_pos hg.symm]
    split <;> simp
  · rw [if_neg hg, if_neg (Ne.symm hg)]
    split <;> simp

/-! ## The counters of the segments -/

/-- The counter of each segment stands in a relation to the number of entries in it.
The relation is equality as long as every compaction ends, and at least a bound otherwise. -/
def Spool.Counters (R : Nat → Int → Prop) (s : Spool) : Prop :=
  ∀ g st, s.segments.lookup g = some st → R (s.standing g) st.live

/-- A relation that counting on both sides keeps. -/
structure Steady (R : Nat → Int → Prop) : Prop where
  zero : R 0 0
  succ : ∀ n z, R n z ↔ R (n + 1) (z + 1)

theorem steady_eq : Steady fun n z => z = n :=
  ⟨rfl, fun n z => by omega⟩

theorem steady_le : Steady fun n z => (n : Int) ≤ z :=
  ⟨le_refl _, fun n z => by omega⟩

theorem QuietMemory.standing (h : QuietMemory s s') (g : Nat) : s'.standing g = s.standing g := by
  rw [standing_eq_total, standing_eq_total]
  exact total_congr h.index fun p _ => by rw [inSegment, h.segment, inSegment]

theorem Linked.standing_of_lt (h : Linked s) {g : Nat} (hg : s.nextID < g) : s.standing g = 0 := by
  refine (standing_eq_zero_iff s g).mpr fun p hp => ?_
  have := h.segment_le p hp
  omega

theorem Linked.nextPtr_notMem (h : Linked s) : s.nextPtr ∉ s.pointers :=
  fun hp => Nat.lt_irrefl _ (h.lt_of_mem_pointers hp)

theorem Linked.lookup_of_known (h : Linked s) (hp : p < s.nextPtr)
    (hknown : s.index.lookup (s.heap p).id ≠ none) : s.index.lookup (s.heap p).id = some p := by
  obtain ⟨q, hq⟩ := Option.ne_none_iff_exists'.mp hknown
  rw [hq, h.unique p q hp hq]

section
variable {R : Nat → Int → Prop} (hR : Steady R)
include hR

theorem Spool.Counters.quiet (h : s.Counters R) (hl : Linked s) (hq : QuietMemory s s') :
    s'.Counters R := by
  intro g st hst
  rw [hq.standing]
  rcases hq.segments with hseg | ⟨hlt, hseg⟩
  · exact h g st (hseg ▸ hst)
  rw [hseg, lookup_insert_ite] at hst
  split at hst
  next hg =>
    cases hst
    rw [hg, hl.standing_of_lt hlt]
    exact hR.zero
  · exact h g st hst

theorem Spool.Counters.wrote (h : s.Counters R) (hl : Linked s) {a : Segment} {r : Record}
    (hr : s.Unused r.id) : (s.wrote env a r).Counters R := by
  intro g st hst
  have htotal : (s.wrote env a r).total (inSegment g) = s.total (inSegment g) + inSegment g
      (entryOf env r (frame kindRecord r.encode).length a.id a.size) :=
    total_add _ rfl (hl.unused_notMem hr) rfl hl.nextPtr_notMem
  rw [standing_eq_total, htotal, ← standing_eq_total, inSegment, entryOf_segment]
  obtain ⟨st₀, hst₀, rfl⟩ := exists_of_lookup_modify hst
  have hold := h g st₀ hst₀
  by_cases hg : g = a.id
  · rw [if_pos hg, if_pos hg.symm]
    exact (hR.succ _ _).mp hold
  · rw [if_neg hg, if_neg (Ne.symm hg)]
    exact hold

theorem Spool.Counters.entombed (h : s.Counters R) (hl : Linked s) {a : Segment} {p : Nat}
    (hp : p < s.nextPtr) (hknown : s.index.lookup (s.heap p).id ≠ none) :
    (s.entombed a p).Counters R := by
  intro g st hst
  have htotal : (s.entombed a p).total (inSegment g) + inSegment g (s.heap p) =
      s.total (inSegment g) :=
    total_drop _ (hl.lookup_of_known hp hknown) rfl rfl
  rw [← standing_eq_total, ← standing_eq_total, inSegment] at htotal
  obtain ⟨st₀, hst₀, hlive⟩ := entombed_live_lookup s a p g hst
  have hold := h g st₀ hst₀
  rw [← htotal] at hold
  split at hold
  next hg =>
    rw [if_pos hg] at hlive
    rw [hR.succ, hlive, Int.sub_add_cancel]
    exact hold
  next hg =>
    rw [if_neg hg, Int.sub_zero] at hlive
    rw [hlive]
    exact hold

end

theorem Spool.Counters.removed {R : Nat → Int → Prop} (h : s.Counters R) (g : Nat) :
    (s.next.removeSegment g).Counters R := by
  intro g' st hst
  rw [show (s.next.removeSegment g).segments = s.segments.erase g from rfl,
    lookup_erase_ite] at hst
  split at hst
  · cases hst
  · exact h g' st hst

/-- A copied entry counts at the segment it went to, and still at the one it left, so
the counters stay bounds. -/
theorem Spool.Counters.copied (h : s.Counters fun n z => (n : Int) ≤ z) (hl : Linked s) {r : Record}
    (hp : p ∈ s.pointers) : (s.copied a p r).Counters fun n z => (n : Int) ≤ z := by
  intro g st hst
  have htotal : (s.copied a p r).total (inSegment g) + inSegment g (s.heap p) =
      s.total (inSegment g) + inSegment g _ :=
    total_move (inSegment g) hl.nodup_pointers hp rfl rfl
  rw [← standing_eq_total, ← standing_eq_total, inSegment, inSegment] at htotal
  obtain ⟨st₀, hst₀, rfl⟩ := exists_of_lookup_modify hst
  have := h g st₀ hst₀
  by_cases hg : g = a.id
  · rw [if_pos hg.symm] at htotal
    rw [if_pos hg]
    simp only
    omega
  · rw [if_neg (Ne.symm hg)] at htotal
    rw [if_neg hg]
    omega

theorem QuietMemory.fill (h : QuietMemory s s') : s'.fill = s.fill := by
  exact total_congr h.index fun p _ => h.size p

theorem Spool.Hosted.congr (h : s.Hosted) (hindex : s'.index = s.index)
    (hbyHost : s'.byHost = s.byHost) (hhost : ∀ p, (s'.heap p).hostID = (s.heap p).hostID) :
    s'.Hosted := by
  intro host
  rw [Spool.hostList, hbyHost, Spool.pointers, hindex]
  refine ⟨(h host).1, fun p => ?_⟩
  rw [hhost]
  exact (h host).2 p

theorem Spool.Hosted.addEntry (h : s.Hosted) {item : Entry} (hid : item.id ∉ s.index)
    (hp : s.nextPtr ∉ s.pointers) : (s.addEntry item).Hosted := by
  have hhost : ∀ h, (s.addEntry item).hostList h =
      if h = item.hostID then s.hostList item.hostID ++ [s.nextPtr] else s.hostList h :=
    hostList_insert rfl
  have hpointers : (s.addEntry item).pointers = s.nextPtr :: s.pointers := by
    show ((s.index.insert item.id s.nextPtr).entries.map (·.2)) = _
    rw [AList.entries_insert_of_notMem hid]
    rfl
  have hheap : ∀ p, (s.addEntry item).heap p = if p = s.nextPtr then item else s.heap p :=
    fun p => Function.update_apply _ _ _ _
  have hnew : ∀ host, s.nextPtr ∉ s.hostList host := fun host hmem =>
    hp (((h host).2 _).mp hmem).1
  intro host
  rw [hhost]
  refine ⟨?_, fun p => ?_⟩
  · split
    · rw [← concat_eq_append, nodup_concat]
      exact ⟨hnew _, (h _).1⟩
    · exact (h host).1
  · rw [hpointers, hheap]
    by_cases hpn : p = s.nextPtr
    · subst hpn
      rw [if_pos rfl]
      by_cases hh : host = item.hostID
      · simp [hh]
      · rw [if_neg hh]
        exact iff_of_false (hnew host) fun hc => hh hc.2.symm
    · by_cases hh : host = item.hostID
      · subst hh
        simp [hpn, (h _).2]
      · rw [if_neg hh, (h host).2]
        simp [hpn]

theorem Accounts.quiet (h : Accounts s) (hl : Linked s) (hq : QuietMemory s s') : Accounts s' where
  live := by rw [hq.live, hq.fill, h.live]
  hosted := h.hosted.congr hq.index hq.byHost hq.hostID
  segment := Spool.Counters.quiet steady_eq h.segment hl hq

theorem Accounts.removed (h : Accounts s) (g : Nat) : Accounts (s.next.removeSegment g) where
  __ := h
  segment := Spool.Counters.removed (R := fun n z => z = n) h.segment g

theorem Accounts.wrote (h : Accounts s) (hl : Linked s) {r : Record} (hr : s.Unused r.id) :
    Accounts (s.wrote env a r) := by
  have hid := hl.unused_notMem hr
  have htotal : (s.wrote env a r).total Entry.size = s.total Entry.size +
      (entryOf env r (frame kindRecord r.encode).length a.id a.size).size :=
    total_add _ rfl hid rfl hl.nextPtr_notMem
  refine ⟨?_, ?_, Spool.Counters.wrote steady_eq h.segment hl hr⟩
  · show s.live + ((entryOf env r _ a.id a.size).size : Int) = _
    rw [fill_eq_total, htotal, h.live]
    rfl
  · exact Spool.Hosted.addEntry
      (h.hosted.congr rfl rfl fun _ => rfl) hid hl.nextPtr_notMem

theorem Accounts.entombed (h : Accounts s) (hl : Linked s) (hp : p < s.nextPtr)
    (hknown : s.index.lookup (s.heap p).id ≠ none) : Accounts (s.entombed a p) := by
  have hlookup := hl.lookup_of_known hp hknown
  have htotal : (s.entombed a p).total Entry.size + (s.heap p).size = s.total Entry.size :=
    total_drop _ hlookup rfl rfl
  have hhost : ∀ host, (s.entombed a p).hostList host =
      if host = (s.heap p).hostID then (s.hostList host).erase p else s.hostList host :=
    hostList_dropEntry _ p
  have hpointers : ∀ q, q ∈ (s.entombed a p).pointers ↔ q ≠ p ∧ q ∈ s.pointers := by
    intro q
    constructor
    · intro hq
      refine ⟨?_, mem_entombed_pointers s a p hq⟩
      rintro rfl
      obtain ⟨id, hid⟩ := mem_pointers.mp hq
      obtain ⟨hne, hid⟩ := (entombed_lookup_eq_some s a q).mp hid
      exact hne (hl.id id q hid).symm
    · rintro ⟨hne, hq⟩
      obtain ⟨id, hid⟩ := mem_pointers.mp hq
      refine mem_pointers.mpr ⟨id, (entombed_lookup_eq_some s a p).mpr ⟨?_, hid⟩⟩
      rintro rfl
      rw [hlookup] at hid
      exact hne (Option.some.inj hid).symm
  refine ⟨?_, fun host => ⟨?_, fun q => ?_⟩, Spool.Counters.entombed steady_eq h.segment hl hp hknown⟩
  · show s.live - ((s.heap p).size : Int) = _
    rw [h.live, fill_eq_total, fill_eq_total]
    omega
  · rw [hhost]
    split
    · exact (h.hosted host).1.erase p
    · exact (h.hosted host).1
  · rw [hhost, hpointers]
    split
    · rw [(h.hosted host).1.mem_erase_iff, (h.hosted host).2]
      tauto
    next hh =>
      rw [(h.hosted host).2]
      constructor
      · rintro ⟨hq, hqh⟩
        exact ⟨⟨by rintro rfl; exact hh hqh.symm, hq⟩, hqh⟩
      · rintro ⟨⟨-, hq⟩, hqh⟩
        exact ⟨hq, hqh⟩

end Flotestro.RelaySpool
