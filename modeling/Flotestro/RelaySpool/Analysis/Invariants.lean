import Flotestro.Library.Maps
import Flotestro.RelaySpool.Analysis.Compaction

/-!
# Invariants of a running spool

Three invariants every other result rests on.

* `Linked`: the index, the entries and their identifiers agree;
* `Tidy`: the active file ends where the spool thinks it does and nothing said stands in a
  later segment;
* `Known`: the log speaks only of identifiers the spool was handed, buries none the index
  holds, holds no identifier twice in one segment, and the index points at the last copy.

Each comes with one lemma for each way a command can change the spool.
-/

set_option autoImplicit false

namespace Flotestro.RelaySpool

open Library List

variable {env : Env} {s s' : Spool}

/-! ## The index and its entries -/

/-- The index names its entries by their identifiers, no other entry of the process
bears an indexed identifier, and no entry stands behind the active segment. -/
structure Linked (s : Spool) : Prop where
  lt : ∀ id p, s.index.lookup id = some p → p < s.nextPtr
  id : ∀ id p, s.index.lookup id = some p → (s.heap p).id = id
  unique : ∀ p q, p < s.nextPtr → s.index.lookup (s.heap p).id = some q → q = p
  segment_le : ∀ p ∈ s.pointers, (s.heap p).segment ≤ s.nextID
  active_le : ∀ a, s.active = some a → a.id ≤ s.nextID
  behind : ∀ a, s.active = some a → ∀ p ∈ s.pointers, (s.heap p).segment ≤ a.id

variable {g p : Nat} {a : Segment}

theorem mem_pointers : p ∈ s.pointers ↔ ∃ id, s.index.lookup id = some p :=
  mem_values_iff

theorem mem_index_of_lookup {id : UUID} (h : s.index.lookup id = some p) : id ∈ s.index :=
  AList.lookup_isSome.mp (by rw [h]; rfl)

section
variable (h : Linked s)
include h

theorem Linked.mem_pointers_iff : p ∈ s.pointers ↔ s.index.lookup (s.heap p).id = some p := by
  rw [mem_pointers]
  constructor
  · rintro ⟨id, hid⟩
    rw [h.id id p hid]
    exact hid
  · intro hp
    exact ⟨_, hp⟩

theorem Linked.lt_of_mem_pointers (hp : p ∈ s.pointers) : p < s.nextPtr :=
  h.lt _ p (h.mem_pointers_iff.mp hp)

theorem Linked.nodup_pointers : s.pointers.Nodup := nodup_values h.id

theorem Linked.unused_notMem {id : UUID} (hid : s.Unused id) : id ∉ s.index := by
  intro hmem
  obtain ⟨p, hp⟩ := Option.isSome_iff_exists.mp (AList.lookup_isSome.mpr hmem)
  exact hid p (h.lt id p hp) (h.id id p hp)

theorem Linked.quiet (hq : QuietMemory s s') : Linked s' where
  lt id p hp := by
    rw [hq.nextPtr]
    exact h.lt id p (hq.index ▸ hp)
  id id p hp := by
    rw [hq.id]
    exact h.id id p (hq.index ▸ hp)
  unique p q hp hl := by
    rw [hq.index, hq.id] at hl
    exact h.unique p q (hq.nextPtr ▸ hp) hl
  segment_le p hp := by
    rw [hq.segment]
    exact (h.segment_le p (hq.pointers ▸ hp)).trans hq.nextID
  active_le a ha := by
    rcases hq.active a ha with ⟨a₀, ha₀, hid, -⟩ | ⟨-, hid, -⟩
    · rw [hid]
      exact (h.active_le a₀ ha₀).trans hq.nextID
    · exact hid.le
  behind a ha p hp := by
    rw [hq.pointers] at hp
    rw [hq.segment]
    rcases hq.active a ha with ⟨a₀, ha₀, hid, -⟩ | ⟨-, hid, -⟩
    · rw [hid]
      exact h.behind a₀ ha₀ p hp
    · rw [hid]
      exact (h.segment_le p hp).trans hq.nextID

theorem Linked.removed (g : Nat) : Linked (s.next.removeSegment g) :=
  { h with }

end

section
variable (env s) (a : Segment) (r : Record)

theorem wrote_lookup (id : UUID) : (s.wrote env a r).index.lookup id =
    if id = r.id then some s.nextPtr else s.index.lookup id :=
  lookup_insert_ite _ _ _ _

theorem wrote_heap (p : Nat) : (s.wrote env a r).heap p =
    if p = s.nextPtr then entryOf env r (frame kindRecord r.encode).length a.id a.size
    else s.heap p :=
  Function.update_apply _ _ _ _

theorem mem_wrote_pointers {p : Nat} (hp : p ∈ (s.wrote env a r).pointers) :
    p = s.nextPtr ∨ p ∈ s.pointers := by
  obtain ⟨id, hid⟩ := mem_pointers.mp hp
  rw [wrote_lookup] at hid
  split at hid
  · exact .inl (Option.some.inj hid).symm
  · exact .inr (mem_pointers.mpr ⟨id, hid⟩)

end

theorem Linked.wrote (h : Linked s) (ha : s.active = some a) {r : Record} (hr : s.Unused r.id) :
    Linked (s.wrote env a r) where
  lt id p hp := by
    rw [wrote_lookup] at hp
    split at hp
    · cases hp
      exact Nat.lt_succ_self _
    · exact Nat.lt_succ_of_lt (h.lt id p hp)
  id id p hp := by
    rw [wrote_lookup] at hp
    split at hp
    next hid =>
      cases hp
      rw [wrote_heap, if_pos rfl, hid]
      rfl
    · rw [wrote_heap, if_neg (h.lt id p hp).ne, h.id id p hp]
  unique p q hp hl := by
    have hp' : p < s.nextPtr + 1 := hp
    rw [wrote_heap, wrote_lookup] at hl
    by_cases hpn : p = s.nextPtr
    · rw [if_pos hpn, entryOf_id, if_pos rfl] at hl
      exact (Option.some.inj hl).symm.trans hpn.symm
    · have hlt : p < s.nextPtr := by omega
      rw [if_neg hpn, if_neg (hr p hlt)] at hl
      exact h.unique p q hlt hl
  segment_le p hp := by
    rw [wrote_heap]
    split
    · exact h.active_le a ha
    next hpn =>
      exact h.segment_le p ((mem_wrote_pointers env s a r hp).resolve_left hpn)
  active_le a' ha' := by
    cases ha'
    exact h.active_le a ha
  behind a' ha' p hp := by
    cases ha'
    rw [wrote_heap]
    split
    · exact le_refl _
    next hpn =>
      exact h.behind a ha p ((mem_wrote_pointers env s a r hp).resolve_left hpn)

section
variable (s) (a : Segment) (p : Nat)

theorem entombed_lookup (id : UUID) : (s.entombed a p).index.lookup id =
    if id = (s.heap p).id then none else s.index.lookup id :=
  lookup_erase_ite _ _ _

theorem entombed_lookup_eq_some {id : UUID} {q : Nat} : (s.entombed a p).index.lookup id = some q ↔
    id ≠ (s.heap p).id ∧ s.index.lookup id = some q := by
  rw [entombed_lookup]
  split <;> simp_all

theorem mem_entombed_pointers {q : Nat} (hq : q ∈ (s.entombed a p).pointers) : q ∈ s.pointers := by
  obtain ⟨id, hid⟩ := mem_pointers.mp hq
  exact mem_pointers.mpr ⟨id, ((entombed_lookup_eq_some s a p).mp hid).2⟩

end

theorem Linked.entombed (h : Linked s) (ha : s.active = some a) (p : Nat) :
    Linked (s.entombed a p) where
  lt id q hq := h.lt id q ((entombed_lookup_eq_some s a p).mp hq).2
  id id q hq := h.id id q ((entombed_lookup_eq_some s a p).mp hq).2
  unique q q' hq hl := h.unique q q' hq ((entombed_lookup_eq_some s a p).mp hl).2
  segment_le q hq := h.segment_le q (mem_entombed_pointers s a p hq)
  active_le a' ha' := by
    cases ha'
    exact h.active_le a ha
  behind a' ha' q hq := by
    cases ha'
    exact h.behind a ha q (mem_entombed_pointers s a p hq)

theorem copied_heap (s : Spool) (a : Segment) (p : Nat) (r : Record) (q : Nat) :
    (s.copied a p r).heap q =
      if q = p then { s.heap p with segment := a.id, offset := a.size } else s.heap q :=
  Function.update_apply _ _ _ _

theorem copied_id (s : Spool) (a : Segment) (p : Nat) (r : Record) (q : Nat) :
    ((s.copied a p r).heap q).id = (s.heap q).id :=
  update_field Entry.id s.heap p (by rfl) q

theorem Linked.copied (h : Linked s) (ha : s.active = some a) (p : Nat) (r : Record) :
    Linked (s.copied a p r) where
  lt := h.lt
  id id q hq := by
    rw [copied_id]
    exact h.id id q hq
  unique q q' hq hl := by
    rw [copied_id] at hl
    exact h.unique q q' hq hl
  segment_le q hq := by
    rw [copied_heap]
    split
    · exact h.active_le a ha
    · exact h.segment_le q hq
  active_le a' ha' := by
    cases ha'
    exact h.active_le a ha
  behind a' ha' q hq := by
    cases ha'
    rw [copied_heap]
    split
    · exact le_refl _
    · exact h.behind a ha q hq

/-! ## The directory and the active file -/

/-- The active file is clean as long as it ends where the spool thinks it does, and no
later segment says anything. -/
structure Tidy (s : Spool) : Prop where
  aliases : s.aliases = []
  files_le : ∀ g ∈ s.files, g ≤ s.nextID
  active_mem : ∀ a, s.active = some a → a.id ∈ s.files
  active_size : ∀ a, s.active = some a → a.size ≤ (s.content a.id).length
  active_clean : s.Whole → ∀ a, s.active = some a → Clean (s.content a.id)
  active_last : ∀ a, s.active = some a → ∀ g, s.log g ≠ [] → g ≤ a.id

theorem mem_files_of_log (h : s.log g ≠ []) : g ∈ s.files := by
  refine mem_files_of_content_ne_nil fun hc => h ?_
  rw [Spool.log, hc, logOf_nil]

theorem log_of_notMem (h : g ∉ s.files) : s.log g = [] :=
  by_contra fun hne => h (mem_files_of_log hne)

theorem QuietDisk.log (h : QuietDisk s s') : s'.log = s.log := log_eq_of_content h.content

section
variable (h : Tidy s) (hm : QuietMemory s s') (hd : QuietDisk s s')
include h hm hd

/-- An active segment that is not the old one is new, and so empty. -/
theorem Tidy.quiet_active {a' : Segment} (ha' : s'.active = some a') :
    (∃ a, s.active = some a ∧ a'.id = a.id ∧ a'.size = a.size) ∨
      s.nextID < s'.nextID ∧ a'.id = s'.nextID ∧ a'.size = 0 ∧ a'.id ∈ s'.files ∧
        s'.content a'.id = [] := by
  rcases hm.active a' ha' with hold | ⟨hlt, hid, hsize, -⟩
  · exact .inl hold
  · rcases hd.active_file a' ha' with ⟨a, ha, hid'⟩ | hnew
    · have := h.files_le a.id (h.active_mem a ha)
      omega
    · exact .inr ⟨hlt, hid, hsize, hnew⟩

theorem Tidy.quiet_whole (hw : s.Whole) : s'.Whole := by
  intro a' ha'
  rcases h.quiet_active hm hd ha' with ⟨a, ha, hid, hsize⟩ | ⟨-, -, hsize, -, hnil⟩
  · rw [hid, hsize, hd.content]
    exact hw a ha
  · rw [hnil, hsize]
    rfl

theorem Tidy.quiet : Tidy s' := by
  refine ⟨hd.aliases.trans h.aliases, fun g hg => ?_, fun a' ha' => ?_, fun a' ha' => ?_,
    fun hw a' ha' => ?_, fun a' ha' g hg => ?_⟩
  · rcases hd.files_new g hg with hg | ⟨-, rfl⟩
    · exact (h.files_le g hg).trans hm.nextID
    · exact le_refl _
  · rcases h.quiet_active hm hd ha' with ⟨a, ha, hid, -⟩ | ⟨-, -, -, hmem, -⟩
    · rw [hid]
      exact hd.files _ (h.active_mem a ha)
    · exact hmem
  · rcases h.quiet_active hm hd ha' with ⟨a, ha, hid, hsize⟩ | ⟨-, -, hsize, -, -⟩
    · rw [hid, hd.content, hsize]
      exact h.active_size a ha
    · omega
  · rcases h.quiet_active hm hd ha' with ⟨a, ha, hid, hsize⟩ | ⟨-, -, -, -, hnil⟩
    · have hlen := hw a' ha'
      rw [hid, hsize, hd.content] at hlen
      rw [hid, hd.content]
      refine h.active_clean (fun a₀ ha₀ => ?_) a ha
      rw [ha] at ha₀
      cases ha₀
      exact hlen
    · rw [hnil]
      rfl
  · rw [hd.log] at hg
    rcases h.quiet_active hm hd ha' with ⟨a, ha, hid, -⟩ | ⟨hlt, hid, -⟩
    · rw [hid]
      exact h.active_last a ha g hg
    · have := h.files_le g (mem_files_of_log hg)
      omega

end

/-- **A failed write to a whole file says nothing.** -/
theorem Tidy.broken_log (h : Tidy s) (hw : s.Whole) {kind : UInt8} {body : Bytes}
    (hmax : body.length ≤ maxRecordBytes) (hb : Broken env (frame kind body) s s') :
    s'.log = s.log := by
  rcases hb.files with hfiles | ⟨a, n, ha, hn, hfiles⟩
  · exact log_eq_of_content (Spool.content_congr hfiles)
  funext g
  simp only [Spool.log, logOf, content_insert hfiles]
  split
  next hg =>
    rw [hg, walk_append_part (h.active_clean hw a ha) hmax hn]
  · rfl

theorem Tidy.broken (h : Tidy s) (hw : s.Whole) {kind : UInt8} {body : Bytes}
    (hmax : body.length ≤ maxRecordBytes) (hb : Broken env (frame kind body) s s') : Tidy s' := by
  have hlog := h.broken_log hw hmax hb
  have hactive : s'.active = s.active := by rw [hb.same]
  have hnextID : s'.nextID = s.nextID := by rw [hb.same]
  have hfiles : ∀ g, g ∈ s'.files ↔ g ∈ s.files := by
    intro g
    rcases hb.files with hf | ⟨a, n, ha, -, hf⟩
    · rw [hf]
    · rw [hf, AList.mem_insert, or_iff_right_iff_imp]
      rintro rfl
      exact h.active_mem a ha
  have hlen : ∀ g, (s.content g).length ≤ (s'.content g).length := by
    intro g
    rcases hb.files with hf | ⟨a, n, ha, -, hf⟩
    · rw [Spool.content_congr hf]
    rw [content_insert hf]
    split
    next hg =>
      rw [hg, length_append]
      exact Nat.le_add_right _ _
    · exact le_refl _
  refine ⟨?_, fun g hg => ?_, fun a ha => ?_, fun a ha => ?_, fun hw' a ha => ?_,
    fun a ha g hg => ?_⟩
  · rw [hb.same]
    exact h.aliases
  · rw [hnextID]
    exact h.files_le g ((hfiles g).mp hg)
  · exact (hfiles a.id).mpr (h.active_mem a (hactive ▸ ha))
  · exact (h.active_size a (hactive ▸ ha)).trans (hlen a.id)
  · -- a file that is whole behind the failure got no byte
    rw [hactive] at ha
    have hcontent : s'.content a.id = s.content a.id := by
      have hlen' := hw' a (hactive ▸ ha)
      rcases hb.files with hf | ⟨a₀, n, ha₀, hn, hf⟩
      · exact Spool.content_congr hf a.id
      rw [ha] at ha₀
      cases ha₀
      rw [content_insert hf, if_pos rfl] at hlen' ⊢
      rw [length_append, hw a ha] at hlen'
      rw [eq_nil_of_length_eq_zero (by omega : (List.take n (frame kind body)).length = 0),
        append_nil]
    rw [hcontent]
    exact h.active_clean hw a ha
  · rw [hlog] at hg
    exact h.active_last a (hactive ▸ ha) g hg

theorem Tidy.extend (h : Tidy s) (hw : s.Whole) (ha : s.active = some a) (kind : UInt8)
    (body : Bytes) (hmax : body.length ≤ maxRecordBytes)
    (hfiles : s'.files = s.files.insert a.id (s.content a.id ++ frame kind body))
    (hactive : s'.active = some { a with size := a.size + (frame kind body).length })
    (haliases : s'.aliases = s.aliases) (hnextID : s'.nextID = s.nextID) :
    Tidy s' ∧ s'.Whole ∧ s'.log = s.log.write a.id
      (itemOf ⟨kind, body, a.size, headerSize + body.length⟩).toList := by
  have hclean := h.active_clean hw a ha
  have hlen := hw a ha
  have hlog := log_extend hclean hmax hfiles
  rw [hlen] at hlog
  have hwhole : s'.Whole := by
    intro a' ha'
    rw [hactive] at ha'
    cases ha'
    rw [content_insert hfiles, if_pos rfl, length_append, hlen]
  refine ⟨⟨haliases.trans h.aliases, fun g hg => ?_, fun a' ha' => ?_,
    fun a' ha' => (hwhole a' ha').ge, fun _ a' ha' => ?_, fun a' ha' g hg => ?_⟩, hwhole, hlog⟩
  · rw [hfiles, AList.mem_insert] at hg
    rw [hnextID]
    rcases hg with rfl | hg
    · exact h.files_le _ (h.active_mem a ha)
    · exact h.files_le g hg
  · rw [hactive] at ha'
    cases ha'
    rw [hfiles, AList.mem_insert]
    exact .inl rfl
  · rw [hactive] at ha'
    cases ha'
    rw [content_insert hfiles, if_pos rfl]
    exact (walk_append_frame kind hclean hmax).2
  · rw [hactive] at ha'
    cases ha'
    by_cases hga : g = a.id
    · exact hga.le
    · refine h.active_last a ha g fun hnil => hg ?_
      rw [hlog, Log.write, Function.update_of_ne hga, hnil]

theorem removed_log (s : Spool) (g : Nat) : (s.next.removeSegment g).log = s.log.drop g :=
  log_erase rfl

theorem Tidy.removed (h : Tidy s) (hg : s.activeID ≠ some g) : Tidy (s.next.removeSegment g) := by
  have hne : ∀ a, s.active = some a → a.id ≠ g := fun a => s.ne_of_activeID hg
  have hcontent : ∀ g', g' ≠ g → (s.next.removeSegment g).content g' = s.content g' := by
    intro g' hg'
    rw [content_erase (s := s) rfl, if_neg hg']
  refine ⟨h.aliases, fun g' hg' => h.files_le g' (AList.mem_erase.mp hg').2, fun a ha => ?_,
    fun a ha => ?_, fun hw a ha => ?_, fun a ha g' hg' => h.active_last a ha g' fun hnil => hg' ?_⟩
  · exact AList.mem_erase.mpr ⟨hne a ha, h.active_mem a ha⟩
  · rw [hcontent _ (hne a ha)]
    exact h.active_size a ha
  · rw [hcontent _ (hne a ha)]
    refine h.active_clean (fun a₀ ha₀ => ?_) a ha
    have := hw a₀ ha₀
    rwa [hcontent _ (hne a₀ ha₀)] at this
  · rw [removed_log, Log.drop]
    by_cases hgg : g' = g
    · rw [hgg, Function.update_self]
    · rw [Function.update_of_ne hgg, hnil]

/-- The active file does not change with the removal of another. -/
theorem Spool.Whole.removed (hw : s.Whole) (hg : s.activeID ≠ some g) :
    (s.next.removeSegment g).Whole := by
  intro a ha
  rw [content_erase (s := s) rfl, if_neg (s.ne_of_activeID hg ha)]
  exact hw a ha

theorem Spool.Whole.broken (hw : s.Whole) (hshort : env.NoShortWrite) {framed : Bytes}
    (hb : Broken env framed s s') : s'.Whole := by
  intro a ha
  rw [hb.whole hshort]
  refine hw a ?_
  rw [hb.same] at ha
  exact ha

end Flotestro.RelaySpool
