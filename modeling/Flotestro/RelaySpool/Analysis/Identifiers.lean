import Flotestro.RelaySpool.Analysis.Invariants

/-!
# What the log says of the identifiers

The log effect of each command that writes, and the invariant `Known`: the log speaks only of
identifiers the spool was handed, it buries none the index holds, no segment puts an
identifier twice, and the index points at the last segment that puts it.
-/

set_option autoImplicit false

namespace Flotestro.RelaySpool

open Library List

variable {env : Env} {s s' : Spool}

/-! ## What the written frames say -/

theorem itemOf_record (body : Bytes) (offset size : Nat) : itemOf ⟨kindRecord, body, offset, size⟩ =
      (decode body).map fun r => .put r.id ⟨r, offset, size⟩ :=
  if_pos rfl

theorem itemOf_tombstone (id : UUID) (offset size : Nat) :
    itemOf ⟨kindTombstone, id.toList, offset, size⟩ = some (.del id) := by
  have hkind : kindTombstone ≠ kindRecord := by decide
  have htomb : tombstoneOf ⟨kindTombstone, id.toList, offset, size⟩ = some id := by
    rw [tombstoneOf, dif_pos ⟨rfl, id.toList_length⟩]
    rfl
  simp [itemOf, if_neg hkind, htomb]

variable {r : Record} {a : Segment} {p : Nat}

theorem mem_itemOf_encode {offset size : Nat} {i : Item UUID Placed}
    (h : i ∈ (itemOf ⟨kindRecord, r.encode, offset, size⟩).toList) :
    ∃ r', decode r.encode = some r' ∧ i = .put r.id ⟨r', offset, size⟩ := by
  rw [itemOf_record, Option.mem_toList, Option.map_eq_some_iff] at h
  obtain ⟨r', hr', rfl⟩ := h
  exact ⟨r', hr', by rw [id_of_decode_encode hr']⟩

theorem itemOf_encodable (h : r.Encodable) (offset size : Nat) :
    itemOf ⟨kindRecord, r.encode, offset, size⟩ = some (.put r.id ⟨r, offset, size⟩) := by
  rw [itemOf_record, h.decode_encode]
  rfl

/-! ## The log after a write -/

section
variable (h : Tidy s) (hw : s.Whole) (ha : s.active = some a)
include h hw ha

theorem Tidy.wrote (hr : r.bodySize ≤ maxRecordBytes) :
    Tidy (s.wrote env a r) ∧ (s.wrote env a r).Whole ∧ (s.wrote env a r).log = s.log.write a.id
        (itemOf ⟨kindRecord, r.encode, a.size, headerSize + r.encode.length⟩).toList :=
  h.extend hw ha kindRecord r.encode (r.length_encode.le.trans hr) rfl rfl rfl rfl

theorem Tidy.entombed (p : Nat) : Tidy (s.entombed a p) ∧ (s.entombed a p).Whole ∧
      (s.entombed a p).log = s.log.write a.id [.del (s.heap p).id] := by
  have hmax : (s.heap p).id.toList.length ≤ maxRecordBytes := by
    rw [List.Vector.toList_length]
    decide
  have hext : Tidy (s.entombed a p) ∧ (s.entombed a p).Whole ∧ (s.entombed a p).log = _ :=
    h.extend hw ha kindTombstone (s.heap p).id.toList hmax rfl rfl rfl rfl
  rw [itemOf_tombstone] at hext
  exact hext

theorem Tidy.copied (hr : (readLocked env p s).1 = .ok r) :
    Tidy (s.copied a p r) ∧ (s.copied a p r).Whole ∧ (s.copied a p r).log = s.log.write a.id
        [.put (s.heap p).id ⟨r, a.size, headerSize + r.encode.length⟩] := by
  obtain ⟨hid, henc, hsize⟩ := recordAt_ok_bounds (readLocked_ok hr).2
  have hext : Tidy (s.copied a p r) ∧ (s.copied a p r).Whole ∧ (s.copied a p r).log = _ :=
    h.extend hw ha kindRecord r.encode (r.length_encode.le.trans hsize) rfl rfl rfl rfl
  rw [itemOf_encodable henc, hid] at hext
  exact hext

end

/-- The log and the index agree on the identifiers they speak of. -/
structure Known (s : Spool) : Prop where
  heap_handed : ∀ p < s.nextPtr, (s.heap p).id ∈ s.handed
  put_handed : ∀ g k v, Item.put k v ∈ s.log g → k ∈ s.handed
  del_handed : ∀ g k, Item.del k ∈ s.log g → k ∈ s.handed
  del_forgotten : ∀ g k, Item.del k ∈ s.log g → k ∉ s.index
  latest : ∀ g k v p, Item.put k v ∈ s.log g → s.index.lookup k = some p →
    g ≤ (s.heap p).segment
  single : ∀ g, ((s.log g).filterMap Item.putKey).Nodup

theorem Known.unused (h : Known s) {id : UUID} (hid : id ∉ s.handed) : s.Unused id :=
  fun p hp heq => hid (heq ▸ h.heap_handed p hp)

/-- A log that lost items and an index that holds the same entries speak of the same identifiers. -/
theorem Known.thinned (h : Known s) (hindex : s'.index = s.index) (hnext : s'.nextPtr = s.nextPtr)
    (hid : ∀ p, (s'.heap p).id = (s.heap p).id)
    (hsegment : ∀ p, (s'.heap p).segment = (s.heap p).segment)
    (hlog : ∀ g, Sublist (s'.log g) (s.log g)) (hhistory : ∀ r ∈ s.history, r ∈ s'.history) :
    Known s' := by
  have hhanded : ∀ id ∈ s.handed, id ∈ s'.handed := by
    intro id hid
    obtain ⟨r, hr, rfl⟩ := mem_map.mp hid
    exact mem_map.mpr ⟨r, hhistory r hr, rfl⟩
  refine ⟨fun p hp => ?_, fun g k v hk => hhanded k (h.put_handed g k v ((hlog g).subset hk)),
    fun g k hk => hhanded k (h.del_handed g k ((hlog g).subset hk)), fun g k hk => ?_,
    fun g k v p hk hp => ?_, fun g => ((hlog g).filterMap _).nodup (h.single g)⟩
  · rw [hid]
    exact hhanded _ (h.heap_handed p (hnext ▸ hp))
  · rw [hindex]
    exact h.del_forgotten g k ((hlog g).subset hk)
  · rw [hsegment]
    exact h.latest g k v p ((hlog g).subset hk) (hindex ▸ hp)

theorem Known.quiet (h : Known s) (hm : QuietMemory s s') (hlog : s'.log = s.log)
    (hhistory : ∀ r ∈ s.history, r ∈ s'.history) : Known s' :=
  h.thinned hm.index hm.nextPtr hm.id hm.segment (fun g => by rw [hlog]) hhistory

theorem mem_putKeys {g : Nat} {k : UUID} :
    k ∈ (s.log g).filterMap Item.putKey ↔ ∃ v, Item.put k v ∈ s.log g := by
  rw [mem_filterMap]
  constructor
  · rintro ⟨i, hi, hk⟩
    cases i with
    | put k' v =>
      cases hk
      exact ⟨v, hi⟩
    | del k' => cases hk
  · rintro ⟨v, hv⟩
    exact ⟨_, hv, rfl⟩

/-- A segment that gains an identifier it does not put yet puts none twice. -/
theorem single_write {g : Nat} {items : List (Item UUID Placed)}
    (hlog : s'.log = s.log.write g items) (hsingle : ∀ g, ((s.log g).filterMap Item.putKey).Nodup)
    (hitems : items.filterMap Item.putKey = [] ∨
      ∃ k, items.filterMap Item.putKey = [k] ∧ ∀ v, Item.put k v ∉ s.log g) (g' : Nat) :
    ((s'.log g').filterMap Item.putKey).Nodup := by
  rw [hlog, Log.write]
  by_cases hg : g' = g
  · subst hg
    rw [Function.update_self, filterMap_append]
    rcases hitems with hitems | ⟨k, hitems, hnew⟩ <;> rw [hitems]
    · rw [append_nil]
      exact hsingle g'
    rw [← concat_eq_append, nodup_concat, mem_putKeys]
    exact ⟨not_exists.mpr hnew, hsingle g'⟩
  · rw [Function.update_of_ne hg]
    exact hsingle g'

section
variable (h : Known s) (ht : Tidy s) (hw : s.Whole)
include h ht hw

theorem Known.wrote (hl : Linked s)
    (ha : s.active = some a) (hr : r.bodySize ≤ maxRecordBytes) (hnew : r.id ∉ s.handed) :
    Known (s.wrote env a r) := by
  have hlog : (s.wrote env a r).log = _ := (ht.wrote hw ha hr).2.2
  have hhanded : ∀ id, id ∈ (s.wrote env a r).handed ↔ id ∈ s.handed ∨ id = r.id := by
    intro id
    show id ∈ (s.history ++ [r]).map (·.id) ↔ _
    simp [Spool.handed]
  -- an item of the new log is an old one or puts the new identifier at the active segment
  have hitem : ∀ g i, i ∈ (s.wrote env a r).log g → i ∈ s.log g ∨
      g = a.id ∧ ∃ v, i = .put r.id v := by
    intro g i hi
    rw [hlog, Log.mem_write] at hi
    rcases hi with hi | ⟨hg, hi⟩
    · exact .inl hi
    · obtain ⟨r', -, rfl⟩ := mem_itemOf_encode hi
      exact .inr ⟨hg, _, rfl⟩
  have hdel : ∀ g k, Item.del k ∈ (s.wrote env a r).log g → Item.del k ∈ s.log g := by
    intro g k hk
    rcases hitem g _ hk with hk | ⟨-, v, hv⟩
    · exact hk
    · cases hv
  refine ⟨fun p hp => ?_, fun g k v hk => ?_, fun g k hk => ?_, fun g k hk => ?_,
    fun g k v p hk hp => ?_, ?_⟩
  · rw [wrote_heap, hhanded]
    split
    · exact .inr rfl
    · have hlt : p < s.nextPtr + 1 := hp
      exact .inl (h.heap_handed p (by omega))
  · rw [hhanded]
    rcases hitem g _ hk with hk | ⟨-, v', hv'⟩
    · exact .inl (h.put_handed g k v hk)
    · cases hv'
      exact .inr rfl
  · rw [hhanded]
    exact .inl (h.del_handed g k (hdel g k hk))
  · have hk' := hdel g k hk
    have hne : k ≠ r.id := by
      rintro rfl
      exact hnew (h.del_handed g _ hk')
    rw [← AList.lookup_eq_none, wrote_lookup, if_neg hne, AList.lookup_eq_none]
    exact h.del_forgotten g k hk'
  · rw [wrote_lookup] at hp
    split at hp
    next hkr =>
      cases hp
      rw [wrote_heap, if_pos rfl]
      rcases hitem g _ hk with hk | ⟨hg, -⟩
      · exact absurd (hkr ▸ h.put_handed g k v hk) hnew
      · exact hg.le
    next hkr =>
      rw [wrote_heap, if_neg (hl.lt k p hp).ne]
      rcases hitem g _ hk with hk | ⟨-, v', hv'⟩
      · exact h.latest g k v p hk hp
      · cases hv'
        exact absurd rfl hkr
  · refine single_write hlog h.single ?_
    rw [itemOf_record]
    cases hd : decode r.encode with
    | none => exact .inl rfl
    | some r' =>
      refine .inr ⟨r.id, ?_, fun v hv => hnew (h.put_handed _ _ v hv)⟩
      rw [← id_of_decode_encode hd]
      rfl

theorem Known.entombed (ha : s.active = some a) (hp : p < s.nextPtr) : Known (s.entombed a p) := by
  have hlog := (ht.entombed hw ha p).2.2
  have hput : ∀ g k v, Item.put k v ∈ (s.entombed a p).log g → Item.put k v ∈ s.log g := by
    intro g k v hk
    rw [hlog] at hk
    simpa using hk
  refine ⟨h.heap_handed, fun g k v hk => h.put_handed g k v (hput g k v hk), fun g k hk => ?_,
    fun g k hk => ?_, fun g k v q hk hq => ?_, ?_⟩
  · rw [hlog, Log.mem_write] at hk
    rcases hk with hk | ⟨-, hk⟩
    · exact h.del_handed g k hk
    · cases mem_singleton.mp hk
      exact h.heap_handed p hp
  · rw [← AList.lookup_eq_none, entombed_lookup]
    rw [hlog, Log.mem_write] at hk
    split
    · rfl
    rename_i hne
    rcases hk with hk | ⟨-, hk⟩
    · exact AList.lookup_eq_none.mpr (h.del_forgotten g k hk)
    · cases mem_singleton.mp hk
      exact absurd rfl hne
  · exact h.latest g k v q (hput g k v hk) ((entombed_lookup_eq_some s a p).mp hq).2
  · exact single_write hlog h.single (.inl rfl)

theorem Known.copied (hl : Linked s)
    (ha : s.active = some a) (hp : p ∈ s.pointers) (hother : (s.heap p).segment ≠ a.id)
    (hr : (readLocked env p s).1 = .ok r) : Known (s.copied a p r) := by
  have hlog := (ht.copied hw ha hr).2.2
  have hlookup := hl.mem_pointers_iff.mp hp
  have hlt := hl.lt_of_mem_pointers hp
  have hdel : ∀ g k, Item.del k ∈ (s.copied a p r).log g → Item.del k ∈ s.log g := by
    intro g k hk
    rw [hlog] at hk
    simpa using hk
  refine ⟨fun q hq => ?_, fun g k v hk => ?_, fun g k hk => h.del_handed g k (hdel g k hk),
    fun g k hk => h.del_forgotten g k (hdel g k hk), fun g k v q hk hq => ?_, ?_⟩
  · rw [copied_id]
    exact h.heap_handed q hq
  · rw [hlog, Log.mem_write] at hk
    rcases hk with hk | ⟨-, hk⟩
    · exact h.put_handed g k v hk
    · cases mem_singleton.mp hk
      exact h.heap_handed p hlt
  · have hq' : s.index.lookup k = some q := hq
    rw [hlog, Log.mem_write] at hk
    rw [copied_heap]
    split
    · rcases hk with hk | ⟨hg, -⟩
      · exact ht.active_last a ha g (ne_nil_of_mem hk)
      · exact hg.le
    next hqp =>
      rcases hk with hk | ⟨-, hk⟩
      · exact h.latest g k v q hk hq'
      · cases mem_singleton.mp hk
        rw [hlookup] at hq'
        exact absurd (Option.some.inj hq').symm hqp
  · refine single_write hlog h.single (.inr ⟨_, rfl, fun v hv => ?_⟩)
    -- a copy at the active segment would be the last one, and the entry points elsewhere
    have hle := h.latest a.id _ v p hv hlookup
    exact hother (le_antisymm (hl.behind a ha p hp) hle)

end

theorem Known.removed (h : Known s) (g : Nat) : Known (s.next.removeSegment g) := by
  refine h.thinned rfl rfl (fun _ => rfl) (fun _ => rfl) (fun g' => ?_) fun _ hr => hr
  rw [removed_log, Log.drop]
  by_cases hg : g' = g
  · rw [hg, Function.update_self]
    exact nil_sublist _
  · rw [Function.update_of_ne hg]

end Flotestro.RelaySpool
