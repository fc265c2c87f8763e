import Flotestro.RelaySpool.Analysis.Rebuild

/-!
# What a start of the process leaves

`Opened` collects what the four stages of `rebuild` make of the directory: the index holds
exactly what the log puts and does not bury, each at its last copy; the files kept are the
newest and those an entry stands in; the newest is open and clean.
-/

set_option autoImplicit false

namespace Flotestro.RelaySpool

open Library

variable {env : Env} {s s' : Spool} {T : List UUID} {seen : Seen}

/-- The newest segment is open for appending, when there is one. -/
def Spool.NewestOpen (s : Spool) : Prop :=
  s.active = none ∧ s.nextID = 0 ∨
    ∃ a, s.active = some a ∧ a.id = s.nextID ∧ a.opened = true ∧ a.id ∈ s.files ∧
      Clean (s.content a.id) ∧ (s.content a.id).length = a.size

/-- The spool `s'` that the stages of a start make of the directory of `s`, `T` being
the tombstones they found and `seen` the records. -/
structure Opened (env : Env) (s s' : Spool) (T : List UUID) (seen : Seen) : Prop where
  options : s'.options = s.options
  aliases : s'.aliases = s.aliases
  history : s'.history = s.history
  closed : s'.closed = false
  indexed : Indexed env T seen s'
  mem : ∀ x ∈ seen, Item.put x.2.record.id x.2 ∈ s.log x.1
  whole : env.Opens → ∀ g k x, Item.put k x ∈ s.log g → (g, x) ∈ seen
  single : (∀ g, ((s.log g).filterMap Item.putKey).Nodup) → seen.Single
  buried : env.Opens → ∀ k, k ∈ T ↔ Log.Buried s.log k
  files : ∀ g ∈ s'.files, g ∈ s.files
  segments : ∀ g, g ∈ s'.segments ↔ g ∈ s'.files
  nextID : ∀ g ∈ s.files, g ≤ s'.nextID
  log : env.Opens → ∀ g ∈ s'.files, s'.log g = s.log g
  removed : ∀ g ∈ s.files, g ∉ s'.files → g ≠ s'.nextID ∧ s'.standing g = 0
  kept : seen.Single → ∀ g ∈ s'.files, g ≠ s'.nextID → s'.standing g ≠ 0

theorem Indexed.congr (h : Indexed env T seen s) (hindex : s'.index = s.index)
    (hheap : s'.heap = s.heap) (hnext : s'.nextPtr = s.nextPtr) (hlive : s'.live = s.live)
    (hbyHost : s'.byHost = s.byHost) (hcounter : ∀ g st, s'.segments.lookup g = some st →
      ∃ st₀, s.segments.lookup g = some st₀ ∧ st.live = st₀.live) : Indexed env T seen s' := by
  have hstanding := standing_congr hindex hheap
  refine ⟨h.entered.congr hindex hheap hnext, ?_, fun g st hst => ?_, fun hs g st hst => ?_,
    fun ho => ?_⟩
  · rw [fill_congr hindex hheap, hlive, h.live]
  · obtain ⟨st₀, hst₀, heq⟩ := hcounter g st hst
    rw [hstanding, heq]
    exact h.low g st₀ hst₀
  · obtain ⟨st₀, hst₀, heq⟩ := hcounter g st hst
    rw [hstanding, heq]
    exact h.high hs g st₀ hst₀
  · exact (h.hosted ho).congr hindex hbyHost fun p => by rw [hheap]

theorem Indexed.cleared {ids : List Nat} (h : Indexed env T seen s) (hc : Cleared ids s s') :
    Indexed env T seen s' := by
  have hsame := hc.same
  refine h.congr (by rw [hsame]) (by rw [hsame]) (by rw [hsame]) (by rw [hsame]) (by rw [hsame])
    fun g st hst => ⟨st, ?_, rfl⟩
  by_cases hg : g ∈ ids ∧ s.Dead g
  · rw [(hc.dead g hg.1 hg.2).2] at hst
    cases hst
  · rwa [(hc.kept g hg).2] at hst

theorem Opened.frame (h : Opened env s s' T seen) : Frame s s' := { h with }

theorem mem_iff_of_lookup {α β : Type} [DecidableEq α] {m m' : AList fun _ : α => β} {a : α}
    (h : m'.lookup a = m.lookup a) : a ∈ m' ↔ a ∈ m := by
  rw [← AList.lookup_isSome, h, AList.lookup_isSome]

theorem Opened.of_passes {t u v : Spool} {ids : List Nat} (hids : ∀ g, g ∈ ids ↔ g ∈ s.files)
    (hclosed : s.closed = false) (hblank : s.segments = ∅ ∧ s.nextID = 0) (hre : Reread env s t)
    (hburied : env.Opens → ∀ k, k ∈ T ↔ ∃ g ∈ ids, Item.del k ∈ s.log g)
    (hindexed : Indexed env T seen u) (hpassed : Passed env ids t u seen)
    (hcleared : Cleared ids u v) :
    Opened env s v T seen ∧ v.active = s.active ∧ (v.nextID = 0 ∨ v.nextID ∈ v.files) := by
  have hpass : Passing env s u := hre.passing.trans hpassed.passing
  have hsame := hcleared.same
  have htblank : t.segments = ∅ ∧ t.nextID = 0 := by
    rw [hre.same]
    exact hblank
  have husegs : ∀ g, g ∈ u.segments ↔ g ∈ ids := by
    intro g
    rw [hpassed.segments, htblank.1]
    simp
  have hufiles : ∀ g, g ∈ u.files ↔ g ∈ ids := fun g => (hpass.files g).trans (hids g).symm
  have hvnext : v.nextID = u.nextID := by rw [hsame]
  have hvstand : ∀ g, v.standing g = u.standing g :=
    standing_congr (by rw [hsame]) (by rw [hsame])
  -- a file is kept exactly when its segment is not dead
  have hvfiles : ∀ g, g ∈ v.files ↔ g ∈ ids ∧ ¬u.Dead g := by
    intro g
    by_cases hg : g ∈ ids ∧ u.Dead g
    · refine iff_of_false (fun hmem => ?_) fun h => h.2 hg.2
      exact AList.lookup_eq_none.mp (hcleared.dead g hg.1 hg.2).1 hmem
    · rw [mem_iff_of_lookup (hcleared.kept g hg).1, hufiles]
      tauto
  have hvsegs : ∀ g, g ∈ v.segments ↔ g ∈ v.files := by
    intro g
    by_cases hg : g ∈ ids ∧ u.Dead g
    · refine iff_of_false (fun hmem => ?_) fun hmem => ?_
      · exact AList.lookup_eq_none.mp (hcleared.dead g hg.1 hg.2).2 hmem
      · exact AList.lookup_eq_none.mp (hcleared.dead g hg.1 hg.2).1 hmem
    · rw [mem_iff_of_lookup (hcleared.kept g hg).1, mem_iff_of_lookup (hcleared.kept g hg).2,
        husegs, hufiles]
  refine ⟨⟨?_, ?_, ?_, ?_, hindexed.cleared hcleared, fun x hx => ?_,
    fun hopen g k x hx => ?_, fun hsingle => ?_, fun hopen k => ?_, fun g hg => ?_, hvsegs,
    fun g hg => ?_, fun hopen g hg => ?_, fun g hg hnot => ?_, fun hs g hg hne => ?_⟩, ?_, ?_⟩
  · rw [hsame]
    exact hpass.options
  · rw [hsame]
    exact hpass.aliases
  · rw [hsame]
    exact hpass.history
  · rw [hsame]
    exact hpass.closed.trans hclosed
  · exact hre.passing.mem_log_put (hpassed.seenOf.mem x hx).2
  · have hgf : g ∈ ids := (hids g).mpr (mem_files_of_log (List.ne_nil_of_mem hx))
    exact hpassed.seenOf.whole hopen g hgf k x (by rw [hre.log hopen]; exact hx)
  · exact hpassed.seenOf.single fun g _ => (hre.passing.putKeys_sublist g).nodup (hsingle g)
  · rw [hburied hopen]
    constructor
    · rintro ⟨g, -, hg⟩
      exact ⟨g, hg⟩
    · rintro ⟨g, hg⟩
      exact ⟨g, (hids g).mpr (mem_files_of_log (List.ne_nil_of_mem hg)), hg⟩
  · exact (hids g).mp ((hvfiles g).mp hg).1
  · rw [hvnext]
    exact hpassed.ids_le g ((hids g).mpr hg)
  · have hkeep := hcleared.kept g fun h => ((hvfiles g).mp hg).2 h.2
    rw [← hpass.log hopen, Spool.log, Spool.content, hkeep.1]
    rfl
  · have hdead : u.Dead g := by
      by_contra hd
      exact hnot ((hvfiles g).mpr ⟨(hids g).mpr hg, hd⟩)
    obtain ⟨hne, st, hst, hzero⟩ := hdead
    have := hindexed.low g st hst
    rw [hvnext, hvstand]
    exact ⟨hne, by omega⟩
  · obtain ⟨hgids, hdead⟩ := (hvfiles g).mp hg
    obtain ⟨st, hst⟩ := Option.isSome_iff_exists.mp (AList.lookup_isSome.mpr ((husegs g).mpr hgids))
    rw [hvstand]
    intro hzero
    have hlow := hindexed.low g st hst
    have hhigh := hindexed.high hs g st hst
    rw [hvnext] at hne
    exact hdead ⟨hne, st, hst, by omega⟩
  · rw [hsame]
    exact hpass.active
  · rw [hvnext]
    rcases hpassed.nextID with hn | hn
    · exact .inl (hn.trans htblank.2)
    · exact .inr ((hvfiles _).mpr ⟨hn, fun hd => hd.1 rfl⟩)

/-- What the opening of a file changes leaves a start as it was. -/
theorem Opened.reread {v w : Spool} (h : Opened env s v T seen) (hre : Reread env v w) {t size : Nat}
    {active : Option Segment} :
    Opened env s { w with
      tick := t
      active := active
      segments := modify w.segments w.nextID fun st => { st with size := size } } T seen := by
  have hsame := hre.same
  have hindex : w.index = v.index := by rw [hsame]
  have hheap : w.heap = v.heap := by rw [hsame]
  have hnext : w.nextID = v.nextID := by rw [hsame]
  have hsegs : w.segments = v.segments := by rw [hsame]
  have hstanding := standing_congr hindex hheap
  refine ⟨?_, ?_, ?_, ?_, ?_, h.mem, h.whole, h.single, h.buried,
    fun g hg => h.files g ((hre.files g).mp hg), fun g => ?_, fun g hg => hnext ▸ h.nextID g hg,
    fun hopen g hg => ?_, fun g hg hnot => ?_, fun hs g hg hne => ?_⟩
  · rw [← h.options, hsame]
  · rw [← h.aliases, hsame]
  · rw [← h.history, hsame]
  · rw [← h.closed, hsame]
  · refine h.indexed.congr hindex hheap (by rw [hsame]) (by rw [hsame]) (by rw [hsame])
      fun g st hst => ?_
    obtain ⟨st₀, hst₀, rfl⟩ := exists_of_lookup_modify hst
    exact ⟨st₀, hsegs ▸ hst₀, by split <;> rfl⟩
  · rw [modify_keys, hsegs, h.segments]
    exact (hre.files g).symm
  · have hlog : w.log g = v.log g := by rw [hre.log hopen]
    exact hlog.trans (h.log hopen g ((hre.files g).mp hg))
  · have := h.removed g hg fun hmem => hnot ((hre.files g).mpr hmem)
    rw [← hnext, ← hstanding] at this
    exact this
  · have := h.kept hs g ((hre.files g).mp hg) (hnext ▸ hne)
    rw [← hstanding] at this
    exact this

/-- The opening of the newest segment completes a start. -/
theorem openSegment_spec {v : Spool} (h : Opened env s v T seen) (hactive : v.active = none)
    (hnext : v.nextID = 0 ∨ v.nextID ∈ v.files) : Frame s (openSegment env v).2 ∧
      ((openSegment env v).1 = .ok () →
        Opened env s (openSegment env v).2 T seen ∧ (openSegment env v).2.NewestOpen) ∧
      (env.Opens → (openSegment env v).1 = .ok ()) := by
  unfold openSegment
  split
  next hz => exact ⟨h.frame, fun _ => ⟨h, .inl ⟨hactive, hz⟩⟩, fun _ => rfl⟩
  next hz =>
  have hmem := hnext.resolve_left hz
  obtain ⟨hre, hok, hall⟩ := walkSegment_spec env v.nextID v
  split
  next e w hw =>
    simp only [hw] at hre hall
    exact ⟨h.frame.trans hre.passing.frame, nofun, fun hopen => nomatch hall hopen hmem⟩
  next visits w hw =>
    simp only [hw] at hre hok
    have hclean : Clean (w.content v.nextID) := (hok visits rfl).2.2
    have hwnext : w.nextID = v.nextID := by rw [hre.same]
    split
    next hf =>
      refine ⟨{ h.frame.trans hre.passing.frame with }, nofun, fun hopen => ?_⟩
      rw [hopen, hopen] at hf
      rcases hf with hf | hf <;> cases hf
    · refine ⟨(h.reread hre).frame, fun _ => ⟨h.reread hre, .inr ⟨_, rfl, rfl, rfl, ?_, ?_, rfl⟩⟩,
        fun _ => rfl⟩
      · rw [hwnext]
        exact (hre.files _).mpr hmem
      · rw [hwnext]
        exact hclean

theorem rebuildSteps_spec (env : Env) (haliases : s.aliases = []) (hindex : s.index = ∅)
    (hptr : s.nextPtr = 0) (hlive : s.live = 0) (hsegments : s.segments = ∅)
    (hbyHost : s.byHost = ∅) (hnextID : s.nextID = 0) (hactive : s.active = none)
    (hclosed : s.closed = false) : Frame s (rebuildSteps env s).2 ∧
      ((rebuildSteps env s).1 = .ok () →
        ∃ T seen, Opened env s (rebuildSteps env s).2 T seen ∧ (rebuildSteps env s).2.NewestOpen) ∧
      (env.Opens → (rebuildSteps env s).1 = .ok ()) := by
  obtain ⟨hasc, hids⟩ := listSegments_spec haliases
  have hfiles : ∀ id ∈ s.listSegments, id ∈ s.files := fun id => (hids id).mp
  obtain ⟨hre, hcollect⟩ := collectTombstones_spec env s.listSegments [] s
  unfold rebuildSteps
  simp only
  split
  next e t hc =>
    simp only [hc] at hre hcollect
    refine ⟨hre.passing.frame, nofun, fun hopen => ?_⟩
    obtain ⟨T, hT, -⟩ := hcollect hopen hfiles
    cases hT
  next T t hc =>
  simp only [hc] at hre hcollect
  have hsame := hre.same
  have hburied : env.Opens → ∀ k, k ∈ T ↔ ∃ g ∈ s.listSegments, Item.del k ∈ s.log g := by
    intro hopen k
    obtain ⟨T', hT', hk⟩ := hcollect hopen hfiles
    cases hT'
    simpa using hk k
  have hblank : Indexed env T [] t := indexed_blank env T (by rw [hsame]; exact hindex)
    (by rw [hsame]; exact hptr) (by rw [hsame]; exact hlive) (by rw [hsame]; exact hsegments)
    (by rw [hsame]; exact hbyHost)
  obtain ⟨hframe, hok, hopens⟩ := indexSegments_spec env T s.listSegments t [] hasc (by simp)
    (by rw [hsame]; simp [hsegments]) hblank
  split
  next e u hi =>
    simp only [hi] at hframe hopens
    exact ⟨hre.passing.frame.trans hframe, nofun, fun hopen =>
      nomatch hopens hopen fun id hid => (hre.files id).mpr (hfiles id hid)⟩
  next u hi =>
  simp only [hi] at hok
  obtain ⟨seen, hindexed, hpassed⟩ := hok trivial
  have husegs : ∀ id ∈ s.listSegments, id ∈ u.segments := fun id hid =>
    (hpassed.segments id).mpr (.inr hid)
  obtain ⟨hframe', hok', hopens'⟩ := removeDead_spec env s.listSegments u
    (hasc.imp fun h => Nat.ne_of_lt h) husegs
  split
  next e v hd =>
    simp only [hd] at hframe' hopens'
    exact ⟨(hre.passing.trans hpassed.passing).frame.trans hframe', nofun, fun hopen =>
      nomatch hopens' hopen⟩
  next v hd =>
  simp only [hd] at hok'
  obtain ⟨hopened, hva, hvn⟩ := Opened.of_passes hids hclosed ⟨hsegments, hnextID⟩ hre
    hburied hindexed hpassed (hok' trivial)
  obtain ⟨hlast, hlast', hlast''⟩ := openSegment_spec hopened (hva.trans hactive) hvn
  exact ⟨hlast, fun h => ⟨T, seen, hlast' h⟩, hlast''⟩

/-- **A start of the process.**  It goes through when no operation fails; when it
goes through, it makes of the directory what `Opened` says; when it does not, there is no
spool to work with. -/
theorem openSpool_spec (env : Env) (haliases : s.aliases = []) :
    ((∃ T seen, Opened env s (openSpool env s).2 T seen ∧ (openSpool env s).2.NewestOpen) ∨
      ∃ t, Frame s t ∧ (openSpool env s).2 = { t.blank with closed := true }) ∧
    (env.Opens → ∃ T seen,
      Opened env s (openSpool env s).2 T seen ∧ (openSpool env s).2.NewestOpen) := by
  obtain ⟨hframe, hspec, hopens⟩ := rebuildSteps_spec env
    (s := { s.blank with tick := s.tick + 2 }) haliases rfl rfl rfl rfl rfl rfl rfl rfl
  unfold openSpool
  split
  next hf =>
    refine ⟨.inr ⟨{ s with tick := s.tick + 2 }, ⟨rfl, rfl, rfl⟩, rfl⟩, fun hopen => ?_⟩
    rw [hopen, hopen] at hf
    rcases hf with hf | hf <;> cases hf
  split
  next e t hr =>
    simp only [hr] at hframe hopens
    exact ⟨.inr ⟨t, { hframe with }, rfl⟩, fun hopen => nomatch hopens hopen⟩
  next t hr =>
    simp only [hr] at hspec
    obtain ⟨T, seen, h, hnewest⟩ := hspec trivial
    have h' : Opened env s t T seen :=
      { h with }
    exact ⟨.inl ⟨T, seen, h', hnewest⟩, fun _ => ⟨T, seen, h', hnewest⟩⟩

/-! ## The invariants behind a start -/

theorem Opened.entry (h : Opened env s s' T seen) {id : UUID} {p : Nat}
    (hp : s'.index.lookup id = some p) : id ∉ T ∧ ∃ x : Nat × Placed, x ∈ seen ∧
      x.2.record.id = id ∧ s'.heap p = seenEntry env x ∧ Item.put id x.2 ∈ s.log x.1 := by
  obtain ⟨hT, x, hx, hid, hheap⟩ := h.indexed.entered.sound id p hp
  exact ⟨hT, x, hx, hid, hheap, hid ▸ h.mem x hx⟩

theorem Spool.NewestOpen.of_active (h : s.NewestOpen) {a : Segment} (ha : s.active = some a) :
    a.id = s.nextID ∧ a.id ∈ s.files ∧ Clean (s.content a.id) ∧
      (s.content a.id).length = a.size := by
  rcases h with ⟨hnone, -⟩ | ⟨a', ha', hid, -, hmem, hclean, hlen⟩
  · rw [hnone] at ha
    cases ha
  · rw [ha'] at ha
    cases ha
    exact ⟨hid, hmem, hclean, hlen⟩

theorem Spool.NewestOpen.whole (h : s.NewestOpen) : s.Whole :=
  fun _ ha => (h.of_active ha).2.2.2

section
variable (h : Opened env s s' T seen)
include h

theorem Opened.linked (hnew : s'.NewestOpen) : Linked s' := by
  have hentered := h.indexed.entered
  have hseg : ∀ p ∈ s'.pointers, (s'.heap p).segment ≤ s'.nextID := by
    intro p hp
    obtain ⟨id, hid⟩ := mem_pointers.mp hp
    obtain ⟨-, x, -, -, hheap, hput⟩ := h.entry hid
    rw [hheap]
    exact h.nextID _ (mem_files_of_log (List.ne_nil_of_mem hput))
  refine ⟨hentered.lt, hentered.id, fun p q hp hq => ?_, hseg, fun a ha => (hnew.of_active ha).1.le,
    fun a ha p hp => ?_⟩
  · rw [hentered.all p hp] at hq
    exact (Option.some.inj hq).symm
  · rw [(hnew.of_active ha).1]
    exact hseg p hp

theorem Opened.tidy (hnew : s'.NewestOpen) (haliases : s.aliases = []) : Tidy s' := by
  have hle : ∀ g ∈ s'.files, g ≤ s'.nextID := fun g hg => h.nextID g (h.files g hg)
  refine ⟨h.aliases.trans haliases, hle, fun a ha => (hnew.of_active ha).2.1,
    fun a ha => (hnew.whole a ha).ge, fun _ a ha => (hnew.of_active ha).2.2.1, fun a ha g hg => ?_⟩
  rw [(hnew.of_active ha).1]
  exact hle g (mem_files_of_log hg)

theorem Opened.mem_log (hopen : env.Opens) {g : Nat}
    {i : Item UUID Placed} (hi : i ∈ s'.log g) : i ∈ s.log g := by
  rw [← h.log hopen g (mem_files_of_log (List.ne_nil_of_mem hi))]
  exact hi

/-- The index holds what the log puts and does not bury, at a copy no older than
any. -/
theorem Opened.alive (hopen : env.Opens) {g : Nat} {k : UUID}
    {x : Placed} (hx : Item.put k x ∈ s.log g) (hk : ¬Log.Buried s.log k) :
    ∃ p, s'.index.lookup k = some p ∧ g ≤ (s'.heap p).segment := by
  have hid : x.record.id = k := (mem_logOf_put.mp hx).2
  have := h.indexed.entered.complete (g, x) (h.whole hopen g k x hx)
    (by rw [hid, h.buried hopen]; exact hk)
  rwa [hid] at this

theorem Opened.mem_index_iff (hopen : env.Opens) {id : UUID} :
    id ∈ s'.index ↔ Log.Alive s.log id := by
  constructor
  · intro hmem
    obtain ⟨p, hp⟩ := Option.isSome_iff_exists.mp (AList.lookup_isSome.mpr hmem)
    obtain ⟨hT, x, -, -, -, hput⟩ := h.entry hp
    exact ⟨⟨x.1, x.2, hput⟩, fun hb => hT ((h.buried hopen id).mpr hb)⟩
  · rintro ⟨⟨g, x, hput⟩, hnot⟩
    obtain ⟨p, hp, -⟩ := h.alive hopen hput hnot
    exact mem_index_of_lookup hp

theorem Opened.known (hopen : env.Opens) (hk : Known s) : Known s' := by
  have hhanded : s'.handed = s.handed := by
    unfold Spool.handed
    rw [h.history]
  refine ⟨fun p hp => ?_, fun g k v hv => ?_, fun g k hv => ?_, fun g k hv => ?_,
    fun g k v p hv hp => ?_, fun g => ?_⟩
  · obtain ⟨-, x, -, -, -, hput⟩ := h.entry (h.indexed.entered.all p hp)
    rw [hhanded]
    exact hk.put_handed _ _ _ hput
  · rw [hhanded]
    exact hk.put_handed g k v (h.mem_log hopen hv)
  · rw [hhanded]
    exact hk.del_handed g k (h.mem_log hopen hv)
  · intro hmem
    obtain ⟨p, hp⟩ := Option.isSome_iff_exists.mp (AList.lookup_isSome.mpr hmem)
    exact (h.entry hp).1 ((h.buried hopen k).mpr ⟨g, h.mem_log hopen hv⟩)
  · have hnot : ¬Log.Buried s.log k := fun hb => (h.entry hp).1 ((h.buried hopen k).mpr hb)
    obtain ⟨q, hq, hle⟩ := h.alive hopen (h.mem_log hopen hv) hnot
    rw [hp] at hq
    cases hq
    exact hle
  · by_cases hg : g ∈ s'.files
    · rw [h.log hopen g hg]
      exact hk.single g
    · rw [log_of_notMem hg]
      exact List.nodup_nil

end

/-- **A start reads the log.**  Whatever the files hold, a start that can open them indexes exactly the
records that a segment puts and none buries, each as the newest segment has it. -/
theorem openSpool_reads_log (hopen : env.Opens) (haliases : s.aliases = []) :
    (∀ id, id ∈ (openSpool env s).2.index ↔ Log.Alive s.log id) ∧
      ∀ id p, (openSpool env s).2.index.lookup id = some p → ∃ x : Nat × Placed,
        (openSpool env s).2.heap p = seenEntry env x ∧ Item.put id x.2 ∈ s.log x.1 ∧
          ∀ g y, Item.put id y ∈ s.log g → g ≤ x.1 := by
  obtain ⟨T, seen, h, -⟩ := (openSpool_spec env haliases).2 hopen
  refine ⟨fun id => h.mem_index_iff hopen, fun id p hp => ?_⟩
  obtain ⟨hT, x, -, -, hheap, hput⟩ := h.entry hp
  refine ⟨x, hheap, hput, fun g y hy => ?_⟩
  obtain ⟨q, hq, hle⟩ := h.alive hopen hy fun hb => hT ((h.buried hopen id).mpr hb)
  rw [Option.mem_unique hq hp, hheap] at hle
  exact hle

/-- A segment with two records, and one with a third and the tombstone of the first. -/
def smallDirectory : Spool :=
  .unopened smallOptions
    (AList.insert 2 (frame kindRecord (smallRecord 3).encode ++ frame kindTombstone (uid 1).toList)
      (AList.insert 1
        (frame kindRecord (smallRecord 1).encode ++ frame kindRecord (smallRecord 2).encode) ∅)) []

theorem openSpool_reads_log_record :
    Log.Alive smallDirectory.log (uid 2) ∧ Log.Alive smallDirectory.log (uid 3) ∧
      ¬ Log.Alive smallDirectory.log (uid 1) := by
  have hopen : calm.Opens := fun _ => rfl
  simp only [← (openSpool_reads_log (s := smallDirectory) hopen rfl).1]
  decide +kernel

end Flotestro.RelaySpool
