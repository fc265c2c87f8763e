import Flotestro.RelaySpool.Analysis.Guards
import Flotestro.RelaySpool.Analysis.Programs

/-!
# What is kept survives a restart

`Faithful` is the invariant: each indexed entry says what its record says and stands where the
log puts it, every record in the log was handed to the spool, and no counter of a segment is
below the number of entries in it, so that a segment with entries is never removed.  It holds
along every run of records that can be encoded, wherever a compaction stops and whatever fails, as
long as no frame is written behind a torn one.
-/

set_option autoImplicit false

namespace Flotestro.RelaySpool

open Library List

variable {env : Env} {s s' : Spool} {c : Cmd}

variable {p : Nat} {r : Record} {id : UUID} {a : Segment}

theorem recordAt_of_put {content : Bytes} {x : Placed} (h : Item.put id x ∈ logOf content) :
    recordAt content x.offset id = .ok x.record := by
  obtain ⟨hx, hid⟩ := mem_logOf_put.mp h
  obtain ⟨v, hv, hplaced⟩ := mem_filterMap.mp hx
  unfold placedOf at hplaced
  split at hplaced
  next hkind =>
    rw [Option.map_eq_some_iff] at hplaced
    obtain ⟨r, hr, rfl⟩ := hplaced
    obtain ⟨-, -, -, rest, hread⟩ := readFrame_drop_of_mem (show v ∈ (walkAt 0 _).visits from hv)
    rw [hkind] at hread
    exact recordAt_eq_ok_iff.mpr ⟨hid, v.body, rest, hread, hr⟩
  · cases hplaced

/-- The index and the log tell the same of each record. -/
structure Faithful (env : Env) (s : Spool) : Prop where
  placed : ∀ id p, s.index.lookup id = some p → ∃ x : Placed,
    Item.put id x ∈ s.log (s.heap p).segment ∧
      (s.heap p).kept = entryOf env x.record x.size (s.heap p).segment x.offset
  recorded : ∀ g k x, Item.put k x ∈ s.log g →
    x.record ∈ s.history ∧ x.size = headerSize + x.record.bodySize
  distinct : s.handed.Nodup
  low : s.Counters fun n z => (n : Int) ≤ z

theorem Faithful.quiet (h : Faithful env s) (hl : Linked s) (hm : QuietMemory s s')
    (hlog : s'.log = s.log) (hhistory : s'.history = s.history) : Faithful env s' := by
  refine ⟨fun id p hp => ?_, fun g k x hx => ?_, ?_, h.low.quiet steady_le hl hm⟩
  · rw [hlog, hm.segment, hm.heap]
    exact h.placed id p (hm.index ▸ hp)
  · rw [hhistory]
    exact h.recorded g k x (hlog ▸ hx)
  · rw [Spool.handed, hhistory]
    exact h.distinct

theorem handed_nodup (h : s.handed.Nodup) (hr : r.id ∉ s.handed) :
    ((s.history ++ [r]).map (·.id)).Nodup := by
  rw [map_append, map_singleton, ← concat_eq_append, nodup_concat]
  exact ⟨hr, h⟩

section
variable (h : Faithful env s)
include h

theorem Faithful.hand (hr : r.id ∉ s.handed) : Faithful env (s.hand r) :=
  ⟨h.placed, fun g k x hx => ⟨mem_append_left _ (h.recorded g k x hx).1,
    (h.recorded g k x hx).2⟩, handed_nodup h.distinct hr, h.low⟩

theorem Faithful.wrote (hs : Sound s) (hw : s.Whole) (ha : s.active = some a)
    (hid : r.id ∉ s.handed) (hmax : r.bodySize ≤ maxRecordBytes) (henc : r.Encodable) :
    Faithful env (s.wrote env a r) := by
  have hlog : (s.wrote env a r).log = _ := (hs.tidy.wrote hw ha hmax).2.2
  rw [itemOf_encodable henc] at hlog
  have hunused := hs.known.unused hid
  refine ⟨fun id p hp => ?_, fun g k x hx => ?_, handed_nodup h.distinct hid,
    h.low.wrote steady_le hs.linked hunused⟩
  · rw [wrote_lookup] at hp
    split at hp
    next hidr =>
      cases hp
      rw [wrote_heap, if_pos rfl, hlog, hidr, length_frame]
      exact ⟨_, Log.mem_write.mpr (.inr ⟨rfl, mem_singleton_self _⟩), rfl⟩
    · rw [wrote_heap, if_neg (hs.linked.lt id p hp).ne, hlog]
      obtain ⟨x, hx, hkept⟩ := h.placed id p hp
      exact ⟨x, Log.mem_write.mpr (.inl hx), hkept⟩
  · rw [hlog, Log.mem_write] at hx
    rcases hx with hx | ⟨-, hx⟩
    · obtain ⟨hmem, hsize⟩ := h.recorded g k x hx
      exact ⟨mem_append_left _ hmem, hsize⟩
    · obtain ⟨-, rfl⟩ := Item.put.inj (mem_singleton.mp hx)
      exact ⟨mem_append_right _ (mem_singleton_self r), by rw [r.length_encode]⟩

theorem Faithful.entombed (hs : Sound s) (hw : s.Whole)
    (ha : s.active = some a) (hp : p < s.nextPtr) (hknown : s.index.lookup (s.heap p).id ≠ none) :
    Faithful env (s.entombed a p) := by
  have hlog := (hs.tidy.entombed hw ha p).2.2
  refine ⟨fun id q hq => ?_, fun g k x hx => ?_, h.distinct,
    h.low.entombed steady_le hs.linked hp hknown⟩
  · obtain ⟨x, hx, hkept⟩ := h.placed id q ((entombed_lookup_eq_some s a p).mp hq).2
    rw [hlog]
    exact ⟨x, Log.mem_write.mpr (.inl hx), hkept⟩
  · rw [hlog] at hx
    exact h.recorded g k x (by simpa using hx)

theorem Faithful.read_eq (hl : Linked s) (hp : p ∈ s.pointers)
    (hr : (readLocked env p s).1 = .ok r) : ∃ x : Placed,
      Item.put (s.heap p).id x ∈ s.log (s.heap p).segment ∧ x.record = r ∧
        (s.heap p).kept = entryOf env x.record x.size (s.heap p).segment x.offset := by
  obtain ⟨x, hx, hkept⟩ := h.placed _ p (hl.mem_pointers_iff.mp hp)
  refine ⟨x, hx, ?_, hkept⟩
  have hoffset : (s.heap p).offset = x.offset := by
    simpa [Entry.kept, entryOf] using congrArg Entry.offset hkept
  have hread := (readLocked_ok hr).2
  rw [hoffset, recordAt_of_put hx] at hread
  exact Except.ok.inj hread

theorem Faithful.copied (hs : Sound s) (hw : s.Whole) (ha : s.active = some a)
    (hp : p ∈ s.pointers) (hr : (readLocked env p s).1 = .ok r) :
    Faithful env (s.copied a p r) := by
  have hlog := (hs.tidy.copied hw ha hr).2.2
  obtain ⟨x, hx, hrecord, hkept⟩ := h.read_eq hs.linked hp hr
  obtain ⟨hmem, hsize⟩ := h.recorded _ _ x hx
  rw [hrecord] at hmem hsize hkept
  refine ⟨fun id q hq => ?_, fun g k y hy => ?_, h.distinct, h.low.copied hs.linked hp⟩
  · have hq' : s.index.lookup id = some q := hq
    rw [copied_heap, hlog]
    split
    next hqp =>
      have hid : (s.heap p).id = id := by
        rw [← hqp]
        exact hs.linked.id id q hq'
      refine ⟨⟨r, a.size, headerSize + r.encode.length⟩, Log.mem_write.mpr (.inr ⟨rfl, ?_⟩), ?_⟩
      · rw [hid]
        exact mem_singleton_self _
      · have : ({ s.heap p with segment := a.id, offset := a.size } : Entry).kept =
            { (s.heap p).kept with segment := a.id, offset := a.size } := rfl
        rw [this, hkept, r.length_encode, ← hsize]
        rfl
    · obtain ⟨y, hy, hkept'⟩ := h.placed id q hq'
      exact ⟨y, Log.mem_write.mpr (.inl hy), hkept'⟩
  · rw [hlog, Log.mem_write] at hy
    rcases hy with hy | ⟨-, hy⟩
    · exact h.recorded g k y hy
    · obtain ⟨-, rfl⟩ := Item.put.inj (mem_singleton.mp hy)
      exact ⟨hmem, by rw [r.length_encode]⟩

theorem Faithful.removed {g : Nat} (hempty : ∀ p ∈ s.pointers, (s.heap p).segment ≠ g) :
    Faithful env (s.next.removeSegment g) := by
  refine ⟨fun id p hp => ?_, fun g' k x hx => ?_, h.distinct, h.low.removed g⟩
  · obtain ⟨x, hx, hkept⟩ := h.placed id p hp
    rw [removed_log]
    exact ⟨x, Log.mem_drop.mpr ⟨hempty p (mem_pointers.mpr ⟨id, hp⟩), hx⟩, hkept⟩
  · rw [removed_log, Log.mem_drop] at hx
    exact h.recorded g' k x hx.2

end

/-- A segment whose counter says that nothing is alive in it has no entry. -/
theorem Spool.Settles.empty {g : Nat} (hg : s.Settles g)
    (hlow : s.Counters fun n z => (n : Int) ≤ z) : ∀ p ∈ s.pointers, (s.heap p).segment ≠ g := by
  obtain ⟨-, st, hst, hlive⟩ := hg
  have := hlow g st hst
  exact (standing_eq_zero_iff s g).mp (by omega)

theorem Opened.faithful {T : List UUID} {seen : Seen} (h : Opened env s s' T seen)
    (hopen : env.Opens) (hf : Faithful env s) : Faithful env s' := by
  refine ⟨fun id p hp => ?_, fun g k x hx => hf.recorded g k x (h.mem_log hopen hx) |>.imp_left ?_,
    ?_, h.indexed.low⟩
  · obtain ⟨-, x, -, hid, hheap, hput⟩ := h.entry hp
    have hseg : (s'.heap p).segment = x.1 := by
      rw [hheap]
      rfl
    -- the segment the entry stands in was not removed
    have hkept : x.1 ∈ s'.files := by
      by_contra hgone
      obtain ⟨-, hzero⟩ := h.removed x.1 (mem_files_of_log (ne_nil_of_mem hput)) hgone
      exact (standing_eq_zero_iff s' x.1).mp hzero p (mem_pointers.mpr ⟨id, hp⟩) hseg
    refine ⟨x.2, ?_, ?_⟩
    · rw [hseg, h.log hopen _ hkept]
      exact hput
    · rw [hheap]
      rfl
  · intro hmem
    rw [h.history]
    exact hmem
  · rw [Spool.handed, h.history]
    exact hf.distinct

theorem Faithful.compacting (hstep : Compacting env s s') (h : Faithful env s) (hs : Sound s)
    (hw : s.Whole) : Faithful env s' := by
  cases hstep with
  | moved t => exact h.quiet hs.linked (quiet_tick s t).1 rfl rfl
  | copied a p r ha hp hother hr => exact h.copied hs hw ha hp hr
  | emptied g hempty hid hold => exact h.removed hempty

/-- **Every command keeps the index faithful**, whatever fails, as long as records are
new and can be encoded and no frame is written behind a torn one. -/
theorem Faithful.moved (hopen : env.Opens) (hm : Moved env c s s') (hnew : NewRecords c s)
    (henc : EncodableRecords c s) (hwhole : WholeWrites c s) (hs : Sound s)
    (h : Faithful env s) : Faithful env s' := by
  have hbroken : ∀ {t t' : Spool} {kind : UInt8} {body : Bytes}, body.length ≤ maxRecordBytes →
      Broken env (frame kind body) t t' → Sound t → t.Whole → Faithful env t → Faithful env t' :=
    fun hmax hb ht hw hf =>
      hf.quiet ht.linked hb.memory (ht.tidy.broken_log hw hmax hb) (by rw [hb.same])
  cases hm with
  | quiet hm hd => exact h.quiet hs.linked hm hd.log hd.history
  | wrote r a ha => exact h.wrote hs (hwhole rfl) ha (hnew r rfl).1 (hnew r rfl).2 (henc r rfl)
  | refused r hb =>
    exact hbroken (length_encode_le (hnew r rfl).2) hb (hs.hand r) (hwhole rfl)
      (h.hand (hnew r rfl).1)
  | entombed p a ha hp hknown => exact h.entombed hs (hwhole rfl) ha hp hknown
  | unburied p hb => exact hbroken (length_tombstone _) hb hs (hwhole rfl) h
  | settled g hg => exact h.removed (hg.empty h.low)
  | compacted hpath =>
    refine hpath.inv (I := fun t => (Sound t ∧ t.Whole) ∧ Faithful env t)
      (fun t t' hstep ht => ?_) (fun _ ht => ht.2) (fun t t' hf ht => ?_) ⟨⟨hs, hwhole rfl⟩, h⟩
    · exact ⟨Sound.compacting hstep ht.1, Faithful.compacting hstep ht.2 ht.1.1 ht.1.2⟩
    · obtain ⟨kind, body, hmax, hb⟩ := hf
      exact hbroken hmax hb ht.1.1 ht.1.2 ht.2
  | started =>
    obtain ⟨T, seen, hopened, -⟩ := (openSpool_spec env hs.tidy.aliases).2 hopen
    exact hopened.faithful hopen h

theorem faithful_fresh (hopen : env.Opens) (o : Options) : Faithful env (fresh env o) := by
  obtain ⟨T, seen, h, -⟩ := (openSpool_spec env (s := Spool.unopened o ∅ []) rfl).2 hopen
  refine h.faithful hopen ⟨fun id p hp => ?_, fun g k x hx => ?_, nodup_nil, fun g st hst => ?_⟩
  · cases hp
  · cases hx
  · cases hst

theorem faithful_run (hopen : env.Opens) {α : Type} {p : SpoolM α}
    (hrun : p.Along (step env) Surviving s) (h : Sound s ∧ Faithful env s) :
    Sound (after env p s) ∧ Faithful env (after env p s) := by
  refine Prog.exec_inv (I := fun t => Sound t ∧ Faithful env t) (fun c t hc ht => ?_) hrun h
  have hm := step_moved env c t
  exact ⟨ht.1.moved hopen hm hc.1 hc.2.2, ht.2.moved hopen hm hc.1 hc.2.1 hc.2.2 ht.1⟩

theorem Faithful.readsBack (h : Faithful env s) (hl : Linked s) (hp : s.index.lookup id = some p) :
    ∃ r, s.Appended r ∧ r.id = id ∧ s.ReadsBack p r ∧
      ∃ size offset, (s.heap p).kept = entryOf env r size (s.heap p).segment offset := by
  obtain ⟨x, hx, hkept⟩ := h.placed id p hp
  obtain ⟨hmem, -⟩ := h.recorded _ _ x hx
  have hid : x.record.id = id := (mem_logOf_put.mp hx).2
  have honly : ∀ r' ∈ s.history, r'.id = x.record.id → r' = x.record := fun r' hr' heq =>
    inj_on_of_nodup_map h.distinct hr' hmem heq
  refine ⟨x.record, ⟨hmem, honly⟩, hid, fun env' hfault => ?_, x.size, x.offset, hkept⟩
  have hfile := mem_files_of_log (ne_nil_of_mem hx)
  have hoffset : (s.heap p).offset = x.offset := by
    simpa [Entry.kept, entryOf] using congrArg Entry.offset hkept
  unfold readLocked
  rw [Spool.lookup_files_of_mem hfile, hfault, hfault, hoffset, hl.id id p hp]
  exact recordAt_of_put hx

theorem filter_id_eq (hl : Linked s) (hh : s.Hosted) (hp : s.index.lookup id = some p) (h : Bytes) :
    (s.hostList h).filter (fun q => (s.heap q).id = id) =
      if h = (s.heap p).hostID then [p] else [] := by
  have hunique : ∀ q ∈ s.hostList h, ((s.heap q).id = id ↔ q = p) := by
    intro q hq
    have hq' := hl.mem_pointers_iff.mp (((hh h).2 q).mp hq).1
    constructor
    · intro hid
      rw [hid, hp] at hq'
      exact (Option.some.inj hq').symm
    · rintro rfl
      exact hl.id id q hp
  rw [filter_congr fun q hq => decide_eq_decide.mpr (hunique q hq), filter_eq]
  have hmem : p ∈ s.hostList h ↔ h = (s.heap p).hostID := by
    rw [(hh h).2]
    exact ⟨fun hc => hc.2.symm, fun hc => ⟨mem_pointers.mpr ⟨id, hp⟩, hc.symm⟩⟩
  split
  next hhost =>
    rw [count_eq_one_of_mem (hh h).1 (hmem.mpr hhost)]
    rfl
  next hhost =>
    rw [count_eq_zero_of_not_mem (mt hmem.mp hhost)]
    rfl

/-- **What a restart makes of an entry.**  Behind a start every entry there was is kept
once, describes the same message and reads back as the record that was handed over. -/
theorem Opened.survives {T : List UUID} {seen : Seen} (h : Opened env s s' T seen)
    (hnewest : s'.NewestOpen) (hopen : env.Opens) (hs : Sound s) (hf : Faithful env s)
    (hp : s.index.lookup id = some p) : ∃ p' r,
      s'.KeptOnce id p' ∧ (s.heap p).SameMessage (s'.heap p') ∧ s.Appended r ∧ r.id = id ∧
        s'.ReadsBack p' r := by
  have hl' := h.linked hnewest
  obtain ⟨r, hr, hrid, -, size, offset, hkept⟩ := hf.readsBack hs.linked hp
  obtain ⟨x, hx, -⟩ := hf.placed id p hp
  have hnot : ¬Log.Buried s.log id := fun ⟨g, hg⟩ =>
    hs.known.del_forgotten g id hg (mem_index_of_lookup hp)
  obtain ⟨p', hp', -⟩ := h.alive hopen hx hnot
  obtain ⟨r', hr', hrid', hread, size', offset', hkept'⟩ :=
    (h.faithful hopen hf).readsBack hl' hp'
  have hsame : r' = r := hr.only r' (h.history ▸ hr'.mem) (hrid'.trans hrid.symm)
  subst hsame
  -- an identifier is seen under the host of the one record that bears it
  have hhosted : s'.Hosted := by
    refine h.indexed.hosted fun y hy z hz heq => ?_
    have hrecord : y.2.record = z.2.record := inj_on_of_nodup_map hf.distinct
      (hf.recorded _ _ _ (h.mem y hy)).1 (hf.recorded _ _ _ (h.mem z hz)).1 heq
    rw [hrecord]
  refine ⟨p', r', ⟨hp', fun q hq hid => ?_, filter_id_eq hl' hhosted hp'⟩, ?_, hr, hrid, hread⟩
  · have := hl'.mem_pointers_iff.mp hq
    rw [hid, hp'] at this
    exact (Option.some.inj this).symm
  · have hsame : (s.heap p).kept.SameMessage (s'.heap p').kept := by
      rw [hkept, hkept']
      exact ⟨rfl, rfl, rfl, rfl, rfl, rfl, rfl⟩
    exact { hsame with }

/-- The same across a close and the next start. -/
theorem survives_reopened (hopen : env.Opens) (h : Sound s ∧ Faithful env s)
    (hp : s.index.lookup id = some p) : ∃ p' r,
      (reopened env s).KeptOnce id p' ∧ (s.heap p).SameMessage ((reopened env s).heap p') ∧
        s.Appended r ∧ r.id = id ∧ (reopened env s).ReadsBack p' r := by
  have hclose := faithful_run hopen
    (along_close (fun c t hc => ⟨(Cmd.quiet_free hc t).1, (Cmd.quiet_free hc t).2.1,
      (Cmd.quiet_free hc t).2.2.1⟩) s) h
  have hsame := close_unmoved env s
  obtain ⟨T, seen, hopened, hnewest⟩ := (openSpool_spec env hclose.1.tidy.aliases).2 hopen
  obtain ⟨p', r, honce, hmessage, hr, hid, hread⟩ :=
    hopened.survives hnewest hopen hclose.1 hclose.2 (hsame.index ▸ hp)
  refine ⟨p', r, honce, ?_, ?_, hid, hread⟩
  · have hkept : (s.heap p).kept.SameMessage ((reopened env s).heap p') := by
      rw [← hsame.heap p]
      exact { hmessage with }
    exact { hkept with }
  · exact ⟨hsame.history ▸ hr.mem, fun r' hr' => hr.only r' (hsame.history ▸ hr')⟩

/-! ## Runs without short writes -/

theorem surviving_of_noShortWrite (hopen : env.Opens) (hshort : env.NoShortWrite) {α : Type}
    {p : SpoolM α} (hrun : p.Along (step env) (fun c s => NewRecords c s ∧ EncodableRecords c s) s)
    (h : Sound s ∧ s.Whole) : p.Along (step env) Surviving s := by
  refine (Prog.along_inv (I := fun t => Sound t ∧ t.Whole) (fun c t hc ht => ?_) hrun h).mono
    fun c t hc => ⟨hc.1.1, hc.1.2, fun _ => hc.2.2⟩
  have hm := step_moved env c t
  exact ⟨ht.1.moved hopen hm hc.1 fun _ => ht.2, ht.2.moved hopen hshort hm hc.1 ht.1⟩

/-- **No loss across a restart.**  In every run over an empty directory in which the
records are new and can be encoded and no write leaves a part of its bytes, each record in the
index at the close is kept once by the next start, describes the same message and reads back as
the record that was appended.  An environment may fail any operation at any tick as long as no
byte of a failed write reaches the file; a compaction that stops at any of its copies, or before
it removes the old segment, is a run in one that does. -/
theorem indexed_survives_restart (env : Env) (hopen : env.Opens) (hshort : env.NoShortWrite)
    (o : Options) (ops : List Op)
    (hrun : (runOps env ops).Along (step env) (fun c s => NewRecords c s ∧ EncodableRecords c s)
      (fresh env o)) (id : UUID) (p : Nat)
    (hp : (after env (runOps env ops) (fresh env o)).index.lookup id = some p) :
    ∃ p' r, (reopened env (after env (runOps env ops) (fresh env o))).KeptOnce id p' ∧
      ((after env (runOps env ops) (fresh env o)).heap p).SameMessage
        ((reopened env (after env (runOps env ops) (fresh env o))).heap p') ∧
      (after env (runOps env ops) (fresh env o)).Appended r ∧ r.id = id ∧
      (reopened env (after env (runOps env ops) (fresh env o))).ReadsBack p' r := by
  have hsound := sound_fresh hopen o
  exact survives_reopened hopen (faithful_run hopen
    (surviving_of_noShortWrite hopen hshort hrun hsound) ⟨hsound.1, faithful_fresh hopen o⟩) hp

/-- A compaction that stops between its first copy and the removal of the segment the
copy was made from. -/
theorem indexed_survives_restart_interrupted :
    ∃ p' r, (reopened (failing 27 0) (after (failing 27 0) (runOps (failing 27 0)
        [.append (smallRecord 1), .append (smallRecord 2), .append (smallRecord 3),
          .delete (uid 1)]) (fresh (failing 27 0) crowdedOptions))).KeptOnce (uid 2) p' ∧
      ((after (failing 27 0) (runOps (failing 27 0) [.append (smallRecord 1),
        .append (smallRecord 2), .append (smallRecord 3), .delete (uid 1)])
        (fresh (failing 27 0) crowdedOptions)).heap 1).SameMessage
        ((reopened (failing 27 0) (after (failing 27 0) (runOps (failing 27 0)
          [.append (smallRecord 1), .append (smallRecord 2), .append (smallRecord 3),
            .delete (uid 1)]) (fresh (failing 27 0) crowdedOptions))).heap p') ∧
      (after (failing 27 0) (runOps (failing 27 0) [.append (smallRecord 1),
        .append (smallRecord 2), .append (smallRecord 3), .delete (uid 1)])
        (fresh (failing 27 0) crowdedOptions)).Appended r ∧ r.id = uid 2 ∧
      (reopened (failing 27 0) (after (failing 27 0) (runOps (failing 27 0)
        [.append (smallRecord 1), .append (smallRecord 2), .append (smallRecord 3),
          .delete (uid 1)]) (fresh (failing 27 0) crowdedOptions))).ReadsBack p' r :=
  indexed_survives_restart (failing 27 0) (fun _ => rfl) (failing_noShortWrite 27) crowdedOptions _
    (by decide +kernel) (uid 2) 1 (by decide +kernel)

/-! ## The index and the log -/

theorem Guarding.mem_index_iff (hg : Guarding s) (hs : Sound s) (hf : Faithful env s) :
    id ∈ s.index ↔ Log.Alive s.log id := by
  constructor
  · intro hmem
    obtain ⟨p, hp⟩ := Option.isSome_iff_exists.mp (AList.lookup_isSome.mpr hmem)
    obtain ⟨x, hx, -⟩ := hf.placed id p hp
    exact ⟨⟨_, x, hx⟩, fun ⟨g, hdel⟩ => hs.known.del_forgotten g id hdel hmem⟩
  · exact hg.guarded.mem_of_alive

/-- **Memory and disk agree.**  After every run over an empty directory in which the records are new and
can be encoded, no write leaves a part of its bytes and no removal of a dead segment takes the last
tombstone of a record that stays, the spool holds exactly what its files have alive, and a restart
changes nothing of it. -/
theorem restart_unnoticed (env : Env) (hopen : env.Opens) (hshort : env.NoShortWrite) (o : Options)
    (ops : List Op) (s : Spool) (hs : s = after env (runOps env ops) (fresh env o))
    (hrun : (runOps env ops).Along (step env)
      (fun c s => (NewRecords c s ∧ KeepsGuards c s) ∧ EncodableRecords c s) (fresh env o)) (id : UUID) :
    (id ∈ s.index ↔ Log.Alive s.log id) ∧ (id ∈ (reopened env s).index ↔ id ∈ s.index) := by
  have hsound := sound_fresh hopen o
  have hg := guarding_run hopen hshort (hrun.mono fun _ _ h => h.1) ⟨hsound, guarding_fresh hopen o⟩
  have hf := faithful_run hopen (surviving_of_noShortWrite hopen hshort
    (hrun.mono fun _ _ h => ⟨h.1.1, h.2⟩) hsound) ⟨hsound.1, faithful_fresh hopen o⟩
  rw [← hs] at hg hf
  refine ⟨hg.2.mem_index_iff hg.1.1 hf.2, ?_⟩
  have hg' := guarding_run hopen hshort (along_close (fun c t hc =>
    ⟨(Cmd.quiet_free hc t).1, (Cmd.quiet_free hc t).2.2.2⟩) s) hg
  have hf' := faithful_run hopen (along_close (fun c t hc => ⟨(Cmd.quiet_free hc t).1,
    (Cmd.quiet_free hc t).2.1, (Cmd.quiet_free hc t).2.2.1⟩) s) hf
  obtain ⟨T, seen, h, -⟩ := (openSpool_spec env hg'.1.1.tidy.aliases).2 hopen
  rw [← (close_unmoved env s).index, hg'.2.mem_index_iff hg'.1.1 hf'.2]
  exact h.mem_index_iff hopen

/-- A record deleted and one kept, with a failed write between them. -/
theorem restart_unnoticed_small :
    uid 3 ∈ (reopened (failing 8 0) (after (failing 8 0) (runOps (failing 8 0) [.append (smallRecord 1),
      .append (smallRecord 2), .append (smallRecord 3), .delete (uid 1)])
      (fresh (failing 8 0) smallOptions))).index :=
  (restart_unnoticed (failing 8 0) (fun _ => rfl) (failing_noShortWrite 8) smallOptions _ _ rfl
    (by decide +kernel) (uid 3)).2.mpr (by decide +kernel)

/-! ## Runs with short writes -/

/-- **A later append survives.**  Whatever failed before, and however many bytes a failed
write left, as long as nothing was written behind such bytes: a record whose append reports no
error is in the index, reads back at the offset kept for it, and is in the index of the next
start. -/
theorem later_append_survives (env : Env) (hopen : env.Opens) (o : Options) (ops : List Op)
    (s : Spool) (hs : s = after env (runOps env ops) (fresh env o)) (record : Record)
    (hrun : (runOps env ops).Along (step env) Surviving (fresh env o))
    (happend : (append env record).Along (step env) Surviving s)
    (hnil : answer env (append env record) s = none) :
    ∃ p, (after env (append env record) s).index.lookup (answer env (stampRecord record) s).id =
        some p ∧ (after env (append env record) s).ReadsBack p (answer env (stampRecord record) s) ∧
      (answer env (stampRecord record) s).id ∈
        (reopened env (after env (append env record) s)).index := by
  have hstart := faithful_run hopen hrun ⟨(sound_fresh hopen o).1, faithful_fresh hopen o⟩
  rw [← hs] at hstart
  have hend := faithful_run hopen happend hstart
  obtain ⟨t, a, -, hunmoved⟩ := append_none_kept hnil
  generalize answer env (stampRecord record) s = r at hunmoved ⊢
  have hp : (after env (append env record) s).index.lookup r.id = some t.nextPtr := by
    rw [hunmoved.index, wrote_lookup, if_pos rfl]
  have hr : r ∈ (after env (append env record) s).history := by
    rw [hunmoved.history]
    exact mem_append_right _ (mem_singleton_self r)
  obtain ⟨r', happended, hid, hread, -⟩ := hend.2.readsBack hend.1.linked hp
  have hsame : r = r' := happended.only r hr hid.symm
  obtain ⟨p', -, honce, -⟩ := survives_reopened hopen hend hp
  exact ⟨t.nextPtr, hp, hsame ▸ hread, mem_index_of_lookup honce.lookup⟩

/-- A short write, a start that cuts it off, and an append behind it. -/
theorem later_append_survives_restart :
    ∃ p, (after (failing 8 5) (append (failing 8 5) (smallRecord 3)) (after (failing 8 5)
        (runOps (failing 8 5) [.append (smallRecord 1), .append (smallRecord 2), .open])
        (fresh (failing 8 5) smallOptions))).index.lookup (answer (failing 8 5)
          (stampRecord (smallRecord 3)) (after (failing 8 5) (runOps (failing 8 5)
            [.append (smallRecord 1), .append (smallRecord 2), .open])
            (fresh (failing 8 5) smallOptions))).id = some p ∧
      (after (failing 8 5) (append (failing 8 5) (smallRecord 3)) (after (failing 8 5)
        (runOps (failing 8 5) [.append (smallRecord 1), .append (smallRecord 2), .open])
        (fresh (failing 8 5) smallOptions))).ReadsBack p (answer (failing 8 5)
          (stampRecord (smallRecord 3)) (after (failing 8 5) (runOps (failing 8 5)
            [.append (smallRecord 1), .append (smallRecord 2), .open])
            (fresh (failing 8 5) smallOptions))) ∧
      (answer (failing 8 5) (stampRecord (smallRecord 3)) (after (failing 8 5)
        (runOps (failing 8 5) [.append (smallRecord 1), .append (smallRecord 2), .open])
        (fresh (failing 8 5) smallOptions))).id ∈
        (reopened (failing 8 5) (after (failing 8 5) (append (failing 8 5) (smallRecord 3))
          (after (failing 8 5) (runOps (failing 8 5) [.append (smallRecord 1),
            .append (smallRecord 2), .open]) (fresh (failing 8 5) smallOptions)))).index :=
  later_append_survives (failing 8 5) (fun _ => rfl) smallOptions _ _ rfl (smallRecord 3)
    (by decide +kernel) (by decide +kernel) (by decide +kernel)

/-- **A frame behind a torn one is lost.**  The write of the second record fails with
five of its bytes in the file and the size kept for the segment stays where it was.  The append of
the third record reports no error; yet it cannot be read at the offset kept for it, and the next
start cuts it off with the torn bytes before it. -/
theorem append_behind_torn_frame_lost :
    answer (failing 8 5) (append (failing 8 5) (smallRecord 3)) (after (failing 8 5)
      (runOps (failing 8 5) [.append (smallRecord 1), .append (smallRecord 2)])
      (fresh (failing 8 5) smallOptions)) = none ∧
    (after (failing 8 5) (append (failing 8 5) (smallRecord 3)) (after (failing 8 5)
      (runOps (failing 8 5) [.append (smallRecord 1), .append (smallRecord 2)])
      (fresh (failing 8 5) smallOptions))).index.lookup (uid 3) = some 1 ∧
    (readLocked calm 1 (after (failing 8 5) (append (failing 8 5) (smallRecord 3))
      (after (failing 8 5) (runOps (failing 8 5) [.append (smallRecord 1),
        .append (smallRecord 2)]) (fresh (failing 8 5) smallOptions)))).1.toOption = none ∧
    uid 3 ∉ (reopened (failing 8 5) (after (failing 8 5) (append (failing 8 5) (smallRecord 3))
      (after (failing 8 5) (runOps (failing 8 5) [.append (smallRecord 1),
        .append (smallRecord 2)]) (fresh (failing 8 5) smallOptions)))).index := by
  decide +kernel

/-- A record whose frame says nothing is lost by the next start. -/
theorem undecodable_lost (hopen : env.Opens) {t : Spool} (hsound : Sound t) (hwhole : t.Whole)
    (hactive : t.active = some a) (hempty : ∀ g, t.log g = []) (hmax : r.bodySize ≤ maxRecordBytes)
    (hdecode : decode r.encode = none) (hmoved : Unmoved (t.wrote env a r) s) :
    r.id ∈ s.index ∧ r.id ∉ (reopened env s).index := by
  have hlog : (t.wrote env a r).log = t.log := by
    rw [(hsound.tidy.wrote hwhole hactive hmax).2.2, itemOf_record, hdecode]
    exact Log.write_nil _ _
  refine ⟨?_, fun hmem => ?_⟩
  · refine mem_index_of_lookup (p := t.nextPtr) ?_
    rw [hmoved.index, wrote_lookup, if_pos rfl]
  · have hclose := close_unmoved env s
    have haliases : (after env close s).aliases = [] := by
      rw [hclose.aliases, hmoved.aliases]
      exact hsound.tidy.aliases
    obtain ⟨T, seen, hopened, -⟩ := (openSpool_spec env haliases).2 hopen
    obtain ⟨p, hp⟩ := Option.isSome_iff_exists.mp (AList.lookup_isSome.mpr hmem)
    obtain ⟨-, x, -, -, -, hput⟩ := hopened.entry hp
    rw [hclose.log, hmoved.log, hlog, hempty] at hput
    cases hput

/-- A small message whose envelope names a session of sixty-four thousand letters. -/
def longRecord : Record := { smallRecord 1 with sessionID := replicate 65536 97 }

/-- Bounds under which it fits. -/
def roomyOptions : Options := { smallOptions with maxBytes := 2 ^ 20, segmentBytes := 2 ^ 20 }

theorem bodySize_longRecord : longRecord.bodySize = 65634 := by
  have hlen : longRecord.sessionID.length = 65536 := length_replicate
  unfold Record.bodySize
  rw [hlen]
  rfl

theorem decode_longRecord : decode longRecord.encode = none := by
  have hlen : longRecord.sessionID.length = 65536 := length_replicate
  refine decode_overlong_session (y := replicate 65402 97) (by decide) (by decide) ?_ ?_ ?_
  · rw [hlen]
    decide
  · rfl
  · rw [bodySize_longRecord]
    decide

def firstSegment : Spool := (rollLocked calm (fresh calm roomyOptions).next).2

theorem exec_append_longRecord :
    (append calm longRecord).exec (step calm) (fresh calm roomyOptions) =
      (flushRecord longRecord).exec (step calm)
        (firstSegment.wrote calm ⟨1, 0, true⟩ longRecord) := by
  have hsize : longRecord.size = 65647 := by
    rw [Record.size, bodySize_longRecord]
    rfl
  have hroom : (fresh calm roomyOptions).live + longRecord.size ≤
      (fresh calm roomyOptions).options.limit longRecord.priority := by
    rw [hsize]
    decide
  have hwrite : writeRecord calm longRecord firstSegment =
      (.ok (), firstSegment.wrote calm ⟨1, 0, true⟩ longRecord) := rfl
  have hroll : ensureActive.exec (step calm) (fresh calm roomyOptions).next =
      (.ok (), firstSegment) := rfl
  rw [after_append_fits (by decide) (by decide) rfl rfl hroom rfl, exec_keepRecord,
    exec_writeLocked, hroll]
  simp [hwrite]

theorem after_append_longRecord : Unmoved (firstSegment.wrote calm ⟨1, 0, true⟩ longRecord)
      (after calm (runOps calm [.append longRecord]) (fresh calm roomyOptions)) := by
  rw [after_runOps_cons, after_append_op, after_runOps_nil, after, exec_append_longRecord]
  exact .of_quiet (along_flushRecord (fun _ _ hc => hc) longRecord _)

/-- **A record that is accepted and cannot be read back**: the frame is read, and its body is
not decoded. -/
theorem append_longRecord_unreadable :
    answer calm (append calm longRecord) (fresh calm roomyOptions) = none ∧
      readFrame (frame kindRecord longRecord.encode) =
        .frame kindRecord longRecord.encode [] ∧ decode longRecord.encode = none := by
  refine ⟨by rw [answer, exec_append_longRecord]; rfl, ?_, decode_longRecord⟩
  refine readFrame_eq_frame_iff.mpr ⟨?_, (append_nil _).symm⟩
  rw [Record.length_encode, bodySize_longRecord]
  decide

/-- **A length that wraps loses the record.**  `encode` writes the length of a session in
sixteen bits whatever it is; the record of a session of sixty-four thousand letters is appended,
flushed and indexed, and the next start cannot decode it. -/
theorem long_session_lost :
    uid 1 ∈ (after calm (runOps calm [.append longRecord]) (fresh calm roomyOptions)).index ∧
      uid 1 ∉ (reopened calm (after calm (runOps calm [.append longRecord])
        (fresh calm roomyOptions))).index := by
  have hopen : calm.Opens := fun _ => rfl
  obtain ⟨hm, hd⟩ := quiet_tick (fresh calm roomyOptions) 3
  obtain ⟨hm', hd'⟩ := rollLocked_quiet calm (fresh calm roomyOptions).next
  obtain ⟨hs, hw⟩ := sound_fresh hopen roomyOptions
  have hs' : Sound (fresh calm roomyOptions).next := hs.quiet hm hd
  have hempty : ∀ g, firstSegment.log g = [] := by
    intro g
    rw [show firstSegment.log = (fresh calm roomyOptions).next.log from hd'.log]
    rfl
  have hmax : longRecord.bodySize ≤ maxRecordBytes := by
    rw [bodySize_longRecord]
    decide
  exact undecodable_lost hopen (hs'.quiet hm' hd')
    (hs'.tidy.quiet_whole hm' hd' (hs.tidy.quiet_whole hm hd hw)) rfl hempty hmax decode_longRecord
    after_append_longRecord

end Flotestro.RelaySpool
