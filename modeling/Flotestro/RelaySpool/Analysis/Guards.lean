import Flotestro.RelaySpool.Analysis.Steps

/-!
# What was forgotten stays forgotten

A record that left the index may still stand in a segment file, and only a tombstone keeps the
next start from taking it for alive.  `Guarding` is the invariant: what the log puts is indexed
or buried, and no tombstone stands before what it buries.  Compaction keeps it, since it removes
the oldest segment first.  The removal of a dead segment by `deleteLocked` or by a start keeps it
only under `KeepsGuards`, for it takes the tombstones in that segment away whatever they bury.
-/

set_option autoImplicit false

namespace Flotestro.RelaySpool

open Library List

variable {env : Env} {s s' : Spool} {c : Cmd}

/-- What the log puts is indexed or buried behind it, and every segment that says
something is accounted. -/
structure Guarding (s : Spool) : Prop where
  guarded : Log.Guarded s.log s.indexed
  ordered : Log.Ordered s.log
  accounted : ∀ g, s.log g ≠ [] → g ∈ s.segments
  active : ∀ a, s.active = some a → a.id ∈ s.segments

variable {g : Nat} {a : Segment}

theorem mem_puts {k : UUID} : k ∈ s.puts g ↔ ∃ v, Item.put k v ∈ s.log g :=
  mem_putKeys

theorem mem_buries {k : UUID} : k ∈ s.buries g ↔ Item.del k ∈ s.log g := by
  rw [Spool.buries, mem_filterMap]
  constructor
  · rintro ⟨i, hi, hk⟩
    cases i with
    | put k' v => cases hk
    | del k' =>
      cases hk
      exact hi
  · intro hk
    exact ⟨_, hk, rfl⟩

theorem mem_keys_of_item {i : Item UUID Placed} (h : i ∈ s.log g) : g ∈ s.files.keys :=
  AList.mem_keys.mp (mem_files_of_log (ne_nil_of_mem h))

theorem Spool.DropSafe.safeDrop (h : s.DropSafe g) : s.log.SafeDrop g := by
  intro k hdel g' v hne hput
  obtain ⟨g'', -, hne', hk⟩ := h k (mem_buries.mpr hdel) g' (mem_keys_of_item hput) hne
    (mem_puts.mpr ⟨v, hput⟩)
  exact ⟨g'', hne', mem_buries.mp hk⟩

theorem Guarding.quiet (h : Guarding s) (hm : QuietMemory s s') (hlog : s'.log = s.log) :
    Guarding s' := by
  have hsegments : ∀ g ∈ s.segments, g ∈ s'.segments := by
    intro g hg
    rcases hm.segments with heq | ⟨-, heq⟩
    · rw [heq]
      exact hg
    · rw [heq, AList.mem_insert]
      exact .inr hg
  refine ⟨?_, ?_, fun g hg => ?_, fun a ha => ?_⟩
  · rw [hlog, Spool.indexed, hm.index]
    exact h.guarded
  · rw [hlog]
    exact h.ordered
  · rw [hlog] at hg
    exact hsegments g (h.accounted g hg)
  · rcases hm.active a ha with ⟨a₀, ha₀, hid, -⟩ | ⟨-, -, -, hmem⟩
    · rw [hid]
      exact hsegments _ (h.active a₀ ha₀)
    · exact hmem

/-- A write to the active segment adds to no segment that is not accounted. -/
theorem Guarding.accounted_write (h : Guarding s) (ha : s.active = some a)
    {items : List (Item UUID Placed)} (hlog : s'.log = s.log.write a.id items) (hg : s'.log g ≠ []) :
    g ∈ s.segments := by
  obtain ⟨i, hi⟩ := exists_mem_of_ne_nil _ hg
  rw [hlog, Log.mem_write] at hi
  rcases hi with hi | ⟨rfl, -⟩
  · exact h.accounted g (ne_nil_of_mem hi)
  · exact h.active a ha

theorem Guarding.wrote (h : Guarding s) (hs : Sound s) (hw : s.Whole) (ha : s.active = some a)
    {r : Record} (hid : r.id ∉ s.handed) (hmax : r.bodySize ≤ maxRecordBytes) :
    Guarding (s.wrote env a r) := by
  have hlog : (s.wrote env a r).log = _ := (hs.tidy.wrote hw ha hmax).2.2
  have hindex : ∀ k ∈ s.indexed, k ∈ (s.wrote env a r).indexed := fun k hk =>
    (AList.mem_insert _).mpr (.inr hk)
  have hr : r.id ∈ (s.wrote env a r).indexed := (AList.mem_insert _).mpr (.inl rfl)
  have hnot : ¬Log.Buried s.log r.id := fun ⟨g, hg⟩ => hid (hs.known.del_handed g _ hg)
  have hbase := h.guarded.mono hindex
  have hsaid : (s.wrote env a r).log = s.log ∨
      ∃ x, (s.wrote env a r).log = s.log.write a.id [.put r.id x] := by
    rw [hlog, itemOf_record]
    cases hd : decode r.encode with
    | none => exact .inl (Log.write_nil _ _)
    | some r' => exact .inr ⟨_, by rw [Option.map_some, Option.toList_some, id_of_decode_encode hd]⟩
  refine ⟨?_, ?_, fun g hg => ?_, fun a' ha' => ?_⟩
  · rcases hsaid with hx | ⟨x, hx⟩ <;> rw [hx]
    · exact hbase
    · exact hbase.put hr _ _
  · rcases hsaid with hx | ⟨x, hx⟩ <;> rw [hx]
    · exact h.ordered
    · exact h.ordered.put hnot _ _
  · exact (modify_keys s.segments a.id _ g).mpr (h.accounted_write ha hlog hg)
  · cases ha'
    exact (modify_keys s.segments a.id _ a.id).mpr (h.active a ha)

theorem entombed_segments (s : Spool) (a : Segment) (p g : Nat) :
    g ∈ (s.entombed a p).segments ↔ g ∈ s.segments := by
  show g ∈ modify (modify s.segments a.id _) (s.heap p).segment _ ↔ _
  rw [modify_keys, modify_keys]

theorem Guarding.entombed (h : Guarding s) (hs : Sound s) (hw : s.Whole) (ha : s.active = some a)
    (p : Nat) : Guarding (s.entombed a p) := by
  have hlog := (hs.tidy.entombed hw ha p).2.2
  refine ⟨?_, ?_, fun g hg => ?_, fun a' ha' => ?_⟩
  · rw [hlog]
    refine (h.guarded.del a.id (s.heap p).id).mono fun k hk => ?_
    exact AList.mem_erase.mpr ⟨hk.2, hk.1⟩
  · rw [hlog]
    exact h.ordered.del fun g v hv => hs.tidy.active_last a ha g (ne_nil_of_mem hv)
  · exact (entombed_segments s a p g).mpr (h.accounted_write ha hlog hg)
  · cases ha'
    exact (entombed_segments s a p a.id).mpr (h.active a ha)

theorem Guarding.copied (h : Guarding s) (hs : Sound s) (hw : s.Whole) (ha : s.active = some a)
    {p : Nat} (hp : p ∈ s.pointers) {r : Record} (hr : (readLocked env p s).1 = .ok r) :
    Guarding (s.copied a p r) := by
  have hlog := (hs.tidy.copied hw ha hr).2.2
  have hmem : (s.heap p).id ∈ s.index := mem_index_of_lookup (hs.linked.mem_pointers_iff.mp hp)
  have hnot : ¬Log.Buried s.log (s.heap p).id := fun ⟨g, hg⟩ => hs.known.del_forgotten g _ hg hmem
  refine ⟨?_, ?_, fun g hg => ?_, fun a' ha' => ?_⟩
  · rw [hlog]
    exact h.guarded.put hmem _ _
  · rw [hlog]
    exact h.ordered.put hnot _ _
  · exact (modify_keys s.segments a.id _ g).mpr (h.accounted_write ha hlog hg)
  · cases ha'
    exact (modify_keys s.segments a.id _ a.id).mpr (h.active a ha)

theorem Guarding.removed (h : Guarding s) (hg : s.activeID ≠ some g) (hsafe : s.log.SafeDrop g) :
    Guarding (s.next.removeSegment g) := by
  have hlog := removed_log s g
  refine ⟨?_, ?_, fun g' hg' => ?_, fun a ha => ?_⟩
  · rw [hlog]
    exact h.guarded.drop hsafe
  · rw [hlog]
    exact h.ordered.drop g
  · obtain ⟨i, hi⟩ := exists_mem_of_ne_nil _ hg'
    rw [hlog, Log.mem_drop] at hi
    exact AList.mem_erase.mpr ⟨hi.1, h.accounted g' (ne_nil_of_mem hi.2)⟩
  · exact AList.mem_erase.mpr ⟨s.ne_of_activeID hg ha, h.active a ha⟩

/-- The oldest inactive segment is safe to remove: what stands before it would have to
be active, and the active segment is the last. -/
theorem Guarding.safeDrop_oldest (h : Guarding s) (hs : Sound s)
    (hold : ∀ g' ∈ s.segments, s.activeID ≠ some g' → g ≤ g') : s.log.SafeDrop g := by
  by_cases hnil : s.log g = []
  · intro k hk
    rw [hnil] at hk
    cases hk
  · refine Log.safeDrop_of_oldest h.ordered fun g' hg' => ?_
    by_cases hactive : s.activeID = some g'
    · obtain ⟨a, ha, rfl⟩ := Option.map_eq_some_iff.mp hactive
      exact hs.tidy.active_last a ha g hnil
    · exact hold g' (h.accounted g' hg') hactive

theorem Guarding.compacting (hstep : Compacting env s s') (h : Guarding s) (hs : Sound s)
    (hw : s.Whole) : Guarding s' := by
  cases hstep with
  | moved t => exact h.quiet (quiet_tick s t).1 rfl
  | copied a p r ha hp hother hr => exact h.copied hs hw ha hp hr
  | emptied g hempty hid hold => exact h.removed hid (h.safeDrop_oldest hs hold)

section
variable {T : List UUID} {seen : Seen} (h : Opened env s s' T seen) (hnewest : s'.NewestOpen)
  (hopen : env.Opens)
include h hnewest hopen

theorem Opened.doomed {g : Nat} (hg : g ∈ s.files) (hnot : g ∉ s'.files) : s.Doomed g := by
  obtain ⟨hne, hzero⟩ := h.removed g hg hnot
  have hlt : g < s'.nextID := lt_of_le_of_ne (h.nextID g hg) hne
  refine ⟨?_, fun k hk => ?_⟩
  · rcases hnewest with ⟨-, hz⟩ | ⟨a, -, hid, -, hmem, -⟩
    · omega
    · exact ⟨a.id, AList.mem_keys.mp (h.files _ hmem), hid ▸ hlt⟩
  · obtain ⟨v, hv⟩ := mem_puts.mp hk
    by_cases hb : Log.Buried s.log k
    · obtain ⟨g', hg'⟩ := hb
      exact .inl ⟨g', mem_keys_of_item hg', mem_buries.mpr hg'⟩
    · -- the entry stands at a later copy, for nothing stands in the segment itself
      obtain ⟨p, hp, hle⟩ := h.alive hopen hv hb
      obtain ⟨-, x, -, -, hheap, hput⟩ := h.entry hp
      have hseg : (s'.heap p).segment = x.1 := by
        rw [hheap]
        rfl
      have hne' := (standing_eq_zero_iff s' g).mp hzero p (mem_pointers.mpr ⟨k, hp⟩)
      exact .inr ⟨x.1, mem_keys_of_item hput, by omega, mem_puts.mpr ⟨_, hput⟩⟩

omit hnewest in
theorem Opened.spared (hk : Known s) {g : Nat} (hg : g ∈ s'.files) : g ∈ s.spared := by
  refine mem_filter.mpr ⟨AList.mem_keys.mp (h.files g hg), ?_⟩
  rw [decide_eq_true_iff]
  rintro ⟨⟨g', hg', hlt⟩, hall⟩
  have hle := h.nextID g' (AList.mem_keys.mpr hg')
  have hstanding := h.kept (h.single hk.single) g hg (by omega)
  rw [Ne, standing_eq_zero_iff] at hstanding
  push Not at hstanding
  obtain ⟨p, hp, hseg⟩ := hstanding
  obtain ⟨id, hid⟩ := mem_pointers.mp hp
  obtain ⟨hT, x, -, -, hheap, hput⟩ := h.entry hid
  have hx : x.1 = g := by
    rw [← hseg, hheap]
    rfl
  have hnot : ¬Log.Buried s.log id := fun hb => hT ((h.buried hopen id).mpr hb)
  rcases hall id (mem_puts.mpr ⟨x.2, hx ▸ hput⟩) with ⟨g'', -, hdel⟩ | ⟨g'', -, hlt', hlater⟩
  · exact hnot ⟨g'', mem_buries.mp hdel⟩
  obtain ⟨v, hv⟩ := mem_puts.mp hlater
  obtain ⟨q, hq, hle'⟩ := h.alive hopen hv hnot
  rw [hid] at hq
  cases hq
  omega

theorem Opened.guarding (hk : Known s) (hordered : Log.Ordered s.log) (hsafe : s.OpenSafe) :
    Guarding s' := by
  have hkept : ∀ g ∈ s.spared, g ∈ s'.files := by
    intro g hg
    obtain ⟨hmem, hnot⟩ := mem_filter.mp hg
    by_contra hgone
    exact of_decide_eq_true hnot (h.doomed hnewest hopen (AList.mem_keys.mpr hmem) hgone)
  refine ⟨?_, fun g g' k v hput hdel => ?_, fun g hg => ?_, fun a ha => ?_⟩
  · rintro k ⟨g, v, hput⟩
    have hold := h.mem_log hopen hput
    have hg : g ∈ s'.files := mem_files_of_log (ne_nil_of_mem hput)
    by_cases hb : Log.Buried s.log k
    · refine .inr ?_
      obtain ⟨g₀, hdel⟩ := hb
      by_cases hg₀ : g₀ ∈ s'.files
      · exact ⟨g₀, by rw [h.log hopen g₀ hg₀]; exact hdel⟩
      have hg₀' : g₀ ∈ s.files := mem_files_of_log (ne_nil_of_mem hdel)
      obtain ⟨g₁, hg₁, hdel₁⟩ := hsafe g₀ (AList.mem_keys.mp hg₀')
        (h.doomed hnewest hopen hg₀' hg₀) k (mem_buries.mpr hdel) g
        (h.spared hopen hk hg) (mem_puts.mpr ⟨v, hold⟩)
      exact ⟨g₁, by rw [h.log hopen g₁ (hkept g₁ hg₁)]; exact mem_buries.mp hdel₁⟩
    · obtain ⟨p, hp, -⟩ := h.alive hopen hold hb
      exact .inl (mem_index_of_lookup hp)
  · exact hordered g g' k v (h.mem_log hopen hput) (h.mem_log hopen hdel)
  · exact (h.segments g).mpr (mem_files_of_log hg)
  · exact (h.segments _).mpr (hnewest.of_active ha).2.1

end

theorem Guarding.moved (hopen : env.Opens) (hm : Moved env c s s') (hnew : NewRecords c s)
    (hkeeps : KeepsGuards c s) (hs : Sound s) (hw : s.Whole) (h : Guarding s) : Guarding s' := by
  have hbroken : ∀ {t t' : Spool} {kind : UInt8} {body : Bytes}, body.length ≤ maxRecordBytes →
      Broken env (frame kind body) t t' → Sound t → t.Whole → Guarding t → Guarding t' :=
    fun hmax hb ht hw hg => hg.quiet hb.memory (ht.tidy.broken_log hw hmax hb)
  cases hm with
  | quiet hm hd => exact h.quiet hm hd.log
  | wrote r a ha => exact h.wrote hs hw ha (hnew r rfl).1 (hnew r rfl).2
  | refused r hb =>
    exact hbroken (length_encode_le (hnew r rfl).2) hb (hs.hand r) hw (h.quiet (hand_quiet s r) rfl)
  | entombed p a ha _ _ => exact h.entombed hs hw ha p
  | unburied p hb => exact hbroken (length_tombstone _) hb hs hw h
  | settled g hg => exact h.removed hg.1 (hkeeps.1 g rfl hg).safeDrop
  | compacted hpath =>
    refine hpath.inv (I := fun t => (Sound t ∧ t.Whole) ∧ Guarding t) (fun t t' hstep ht => ?_)
      (fun _ ht => ht.2) (fun t t' hf ht => ?_) ⟨⟨hs, hw⟩, h⟩
    · exact ⟨Sound.compacting hstep ht.1, Guarding.compacting hstep ht.2 ht.1.1 ht.1.2⟩
    · obtain ⟨kind, body, hmax, hb⟩ := hf
      exact hbroken hmax hb ht.1.1 ht.1.2 ht.2
  | started =>
    obtain ⟨T, seen, hopened, hnewest⟩ := (openSpool_spec env hs.tidy.aliases).2 hopen
    exact hopened.guarding hnewest hopen hs.known h.ordered (hkeeps.2 rfl)

theorem guarding_fresh (hopen : env.Opens) (o : Options) : Guarding (fresh env o) := by
  obtain ⟨T, seen, h, hnewest⟩ := (openSpool_spec env (s := Spool.unopened o ∅ []) rfl).2 hopen
  have hnone : ∀ g, g ∉ (fresh env o).files := fun g hg => by
    have := h.files g hg
    cases this
  have hlog : ∀ g, (fresh env o).log g = [] := fun g => log_of_notMem (hnone g)
  refine ⟨?_, fun g g' k v hput => ?_, fun g hg => absurd (hlog g) hg, fun a ha => ?_⟩
  · rintro k ⟨g, v, hput⟩
    rw [hlog] at hput
    cases hput
  · rw [hlog] at hput
    cases hput
  · exact absurd ((sound_fresh hopen o).1.tidy.active_mem a ha) (hnone a.id)

/-- Every state of a run of new records whose removals keep the guards is guarded. -/
theorem guarding_run (hopen : env.Opens) (hshort : env.NoShortWrite) {α : Type} {p : SpoolM α}
    (hrun : p.Along (step env) (fun c s => NewRecords c s ∧ KeepsGuards c s) s)
    (h : (Sound s ∧ s.Whole) ∧ Guarding s) :
    (Sound (after env p s) ∧ (after env p s).Whole) ∧ Guarding (after env p s) := by
  refine Prog.exec_inv (I := fun t => (Sound t ∧ t.Whole) ∧ Guarding t) (fun c t hc ht => ?_) hrun h
  obtain ⟨⟨hs, hw⟩, hg⟩ := ht
  have hm := step_moved env c t
  exact ⟨⟨hs.moved hopen hm hc.1 fun _ => hw, hw.moved hopen hshort hm hc.1 hs⟩,
    hg.moved hopen hm hc.1 hc.2 hs hw⟩

/-- **No resurrection.**  In every run over an empty directory in which the records are
new, no write leaves a part of its bytes and no removal of a dead segment takes the last tombstone
of a record that stays, what is not in the index at the close is not in the index of the next
start: neither what was acknowledged, expired, evicted or coalesced nor anything else. -/
theorem forgotten_stays_forgotten (env : Env) (hopen : env.Opens) (hshort : env.NoShortWrite)
    (o : Options) (ops : List Op)
    (hrun : (runOps env ops).Along (step env) (fun c s => NewRecords c s ∧ KeepsGuards c s)
      (fresh env o)) (id : UUID) (hid : id ∉ (after env (runOps env ops) (fresh env o)).index) :
    id ∉ (reopened env (after env (runOps env ops) (fresh env o))).index := by
  have hend := guarding_run hopen hshort hrun ⟨sound_fresh hopen o, guarding_fresh hopen o⟩
  generalize after env (runOps env ops) (fresh env o) = s at hid hend ⊢
  have hquiet : ∀ c t, c.quiet = true → NewRecords c t ∧ KeepsGuards c t := fun c t hc =>
    ⟨(Cmd.quiet_free hc t).1, (Cmd.quiet_free hc t).2.2.2⟩
  have hclose := guarding_run hopen hshort (along_close hquiet s) hend
  obtain ⟨T, seen, hopened, -⟩ := (openSpool_spec env hclose.1.1.tidy.aliases).2 hopen
  intro hmem
  obtain ⟨p, hp⟩ := Option.isSome_iff_exists.mp (AList.lookup_isSome.mpr hmem)
  obtain ⟨hT, x, -, -, -, hput⟩ := hopened.entry hp
  have halive : Log.Alive (after env close s).log id :=
    ⟨⟨x.1, x.2, hput⟩, fun hb => hT ((hopened.buried hopen id).mpr hb)⟩
  have hindexed : id ∈ (after env close s).index := hclose.2.guarded.mem_of_alive halive
  rw [(close_unmoved env s).index] at hindexed
  exact hid hindexed

/-- A run that removes a segment together with the records in it. -/
theorem forgotten_stays_forgotten_small :
    uid 1 ∉ (reopened calm (after calm (runOps calm [.append (smallRecord 1),
      .append (smallRecord 2), .append (smallRecord 3), .delete (uid 3), .delete (uid 1),
      .delete (uid 2)]) (fresh calm smallOptions))).index :=
  forgotten_stays_forgotten calm (fun _ => rfl) (fun _ _ h => by cases h) smallOptions _
    (by decide +kernel) (uid 1) (by decide +kernel)

/-- **A tombstone removed too early.**  The third record and the tombstone of the first
share a segment; when the third is deleted from the next segment, that segment is dead and goes,
and the first record, still in the oldest segment, is alive again at the next start. -/
theorem deleted_record_resurrected :
    uid 1 ∉ (after calm (runOps calm [.append (smallRecord 1), .append (smallRecord 2),
      .append (smallRecord 3), .delete (uid 1), .delete (uid 3)]) (fresh calm smallOptions)).index ∧
    uid 1 ∈ (reopened calm (after calm (runOps calm [.append (smallRecord 1),
      .append (smallRecord 2), .append (smallRecord 3), .delete (uid 1), .delete (uid 3)])
      (fresh calm smallOptions))).index := by
  decide +kernel

end Flotestro.RelaySpool
