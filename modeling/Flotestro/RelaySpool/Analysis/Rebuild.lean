import Flotestro.RelaySpool.Analysis.Identifiers
import Flotestro.RelaySpool.Analysis.Indexing

/-!
# A start of the process

`rebuild` from end to end: the two passes over the segments, the removal of those in which
nothing is alive, and the opening of the newest.  `Opened` says what a successful start makes
of the directory it finds, and `openSpool_opened` that every start over readable files is one.
-/

set_option autoImplicit false

namespace Flotestro.RelaySpool

open Library List

variable {env : Env} {s s' : Spool} {T : List UUID} {seen : Seen}

/-! ## Between two segments -/

/-- The invariant of the second pass between two segments. -/
structure Indexed (env : Env) (T : List UUID) (seen : Seen) (s : Spool) : Prop where
  entered : Entered env T seen s
  live : s.live = s.fill
  low : ∀ g st, s.segments.lookup g = some st → (s.standing g : Int) ≤ st.live
  high : seen.Single → ∀ g st, s.segments.lookup g = some st → st.live ≤ (s.standing g : Int)
  hosted : seen.OneHost → s.Hosted

/-- What the passes leave alone. -/
structure Passing (env : Env) (s s' : Spool) : Prop where
  options : s'.options = s.options
  active : s'.active = s.active
  aliases : s'.aliases = s.aliases
  history : s'.history = s.history
  closed : s'.closed = s.closed
  files : ∀ g, g ∈ s'.files ↔ g ∈ s.files
  visits : ∀ g, (walk (s'.content g)).visits <+: (walk (s.content g)).visits
  whole : env.Opens → ∀ g, (walk (s'.content g)).visits = (walk (s.content g)).visits

theorem Passing.refl (env : Env) (s : Spool) : Passing env s s :=
  ⟨rfl, rfl, rfl, rfl, rfl, fun _ => .rfl, fun _ => prefix_rfl, fun _ _ => rfl⟩

theorem Passing.trans {t : Spool} (h : Passing env s t) (h' : Passing env t s') :
    Passing env s s' :=
  ⟨h'.options.trans h.options, h'.active.trans h.active, h'.aliases.trans h.aliases,
    h'.history.trans h.history, h'.closed.trans h.closed, fun g => (h'.files g).trans (h.files g),
    fun g => (h'.visits g).trans (h.visits g),
    fun hopen g => (h'.whole hopen g).trans (h.whole hopen g)⟩

theorem Reread.passing (h : Reread env s s') : Passing env s s' := by
  have hsame := h.same
  exact ⟨by rw [hsame], by rw [hsame], by rw [hsame], by rw [hsame], by rw [hsame], h.files,
    h.visits, h.whole⟩

/-- What a start leaves in place whether or not it goes through. -/
structure Frame (s s' : Spool) : Prop where
  options : s'.options = s.options
  aliases : s'.aliases = s.aliases
  history : s'.history = s.history

theorem Frame.refl (s : Spool) : Frame s s := ⟨rfl, rfl, rfl⟩

theorem Frame.trans {t : Spool} (h : Frame s t) (h' : Frame t s') : Frame s s' :=
  ⟨h'.options.trans h.options, h'.aliases.trans h.aliases, h'.history.trans h.history⟩

theorem Passing.frame (h : Passing env s s') : Frame s s' := { h with }

theorem Passing.log (h : Passing env s s') (hopen : env.Opens) : s'.log = s.log := by
  funext g
  simp [Spool.log, logOf, h.whole hopen]

theorem indexVisit_frame (env : Env) (T : List UUID) (id : Nat) (acc : Spool × Int) (v : Visit) :
    Passing env acc.1 (indexVisit env T id acc v).1 ∧
      (indexVisit env T id acc v).1.nextID = acc.1.nextID ∧
      (indexVisit env T id acc v).1.files = acc.1.files ∧
      ∀ g, g ∈ (indexVisit env T id acc v).1.segments ↔ g ∈ acc.1.segments := by
  have hpass : ∀ t : Spool, t.options = acc.1.options → t.active = acc.1.active →
      t.aliases = acc.1.aliases → t.history = acc.1.history → t.closed = acc.1.closed →
      t.files = acc.1.files → Passing env acc.1 t := by
    intro t ho ha hal hh hc hf
    have hcontent := Spool.content_congr hf
    exact ⟨ho, ha, hal, hh, hc, fun g => by rw [hf],
      fun g => by rw [hcontent], fun _ g => by rw [hcontent]⟩
  unfold indexVisit
  split
  · exact ⟨.refl env _, rfl, rfl, fun _ => .rfl⟩
  split
  · exact ⟨hpass _ rfl rfl rfl rfl rfl rfl, rfl, rfl, fun _ => .rfl⟩
  split
  · exact ⟨.refl env _, rfl, rfl, fun _ => .rfl⟩
  · unfold indexEntry
    split
    · exact ⟨hpass _ rfl rfl rfl rfl rfl rfl, rfl, rfl, fun g => modify_keys _ _ _ g⟩
    · exact ⟨hpass _ rfl rfl rfl rfl rfl rfl, rfl, rfl, fun _ => .rfl⟩

theorem indexVisits_frame (env : Env) (T : List UUID) (id : Nat) (visits : List Visit)
    (acc : Spool × Int) : Passing env acc.1 (visits.foldl (indexVisit env T id) acc).1 ∧
      (visits.foldl (indexVisit env T id) acc).1.nextID = acc.1.nextID ∧
      (visits.foldl (indexVisit env T id) acc).1.files = acc.1.files ∧
      ∀ g, g ∈ (visits.foldl (indexVisit env T id) acc).1.segments ↔ g ∈ acc.1.segments := by
  induction visits generalizing acc with
  | nil => exact ⟨.refl env _, rfl, rfl, fun _ => .rfl⟩
  | cons v visits ih =>
    obtain ⟨h₁, h₂, h₃, h₄⟩ := indexVisit_frame env T id acc v
    obtain ⟨h₁', h₂', h₃', h₄'⟩ := ih (indexVisit env T id acc v)
    exact ⟨h₁.trans h₁', h₂'.trans h₂, h₃'.trans h₃, fun g => (h₄' g).trans (h₄ g)⟩

theorem Indexed.enter (h : Indexed env T seen s) (hre : Reread env s s') {id : Nat}
    (hseen : ∀ x ∈ seen, x.1 < id) (hid : id ∉ s.segments) : Indexing env T id seen (s', 0) := by
  have hsame := hre.same
  have hindex : s'.index = s.index := by rw [hsame]
  have hheap : s'.heap = s.heap := by rw [hsame]
  have hsegments : s'.segments = s.segments := by rw [hsame]
  have hstanding := standing_congr hindex hheap
  obtain ⟨he, hlive, hlow, hhigh, hhosted⟩ := h
  have hzero : s.standing id = 0 := by
    refine (standing_eq_zero_iff s id).mpr fun p hp hseg => ?_
    obtain ⟨k, hk⟩ := mem_pointers.mp hp
    obtain ⟨-, x, hx, -, hxheap⟩ := he.sound k p hk
    rw [hxheap] at hseg
    exact (hseen x hx).ne hseg
  refine ⟨he.congr hindex hheap (by rw [hsame]), ⟨?_, ?_, fun g st hst => ?_, ?_,
    fun hs g st hst => ?_, fun _ => ?_, fun ho => ?_⟩, fun x hx => (hseen x hx).le⟩
  · rw [fill_congr hindex hheap, ← hlive, hsame]
  · rw [hsegments]
    exact hid
  · rw [hstanding]
    exact hlow g st (hsegments ▸ hst)
  · rw [hstanding, hzero]
    rfl
  · rw [hstanding]
    exact hhigh hs g st (hsegments ▸ hst)
  · rw [hstanding, hzero]
    rfl
  · exact (hhosted ho).congr hindex (by rw [hsame]) fun p => by rw [hheap]

theorem Indexing.leave {id size : Nat} {acc : Spool × Int} (h : Indexing env T id seen acc)
    (hindex : s'.index = acc.1.index) (hheap : s'.heap = acc.1.heap)
    (hnext : s'.nextPtr = acc.1.nextPtr) (hlive : s'.live = acc.1.live)
    (hbyHost : s'.byHost = acc.1.byHost)
    (hsegments : s'.segments = acc.1.segments.insert id ⟨id, size, acc.2⟩) :
    Indexed env T seen s' := by
  have hstanding := standing_congr hindex hheap
  obtain ⟨he, hc, -⟩ := h
  refine ⟨he.congr hindex hheap hnext, ?_, fun g st hst => ?_, fun hs g st hst => ?_,
    fun ho => ?_⟩
  · rw [hlive, fill_congr hindex hheap]
    exact hc.live
  · rw [hstanding]
    rw [hsegments, lookup_insert_ite] at hst
    split at hst
    next hg =>
      cases hst
      rw [hg]
      exact hc.low_now
    · exact hc.low g st hst
  · rw [hstanding]
    rw [hsegments, lookup_insert_ite] at hst
    split at hst
    next hg =>
      cases hst
      rw [hg]
      exact hc.high_now hs
    · exact hc.high hs g st hst
  · exact (hc.hosted ho).congr hindex hbyHost fun p => by rw [hheap]

theorem putKeys_eq (content : Bytes) : (logOf content).filterMap Item.putKey =
    ((walk content).visits.filterMap placedOf).map (·.record.id) := by
  unfold logOf
  rw [filterMap_filterMap, map_filterMap]
  congr 1
  funext v
  unfold itemOf placedOf
  by_cases hk : v.kind = kindRecord
  · rw [if_pos hk, if_pos hk]
    cases decode v.body <;> rfl
  · rw [if_neg hk, if_neg hk]
    cases tombstoneOf v <;> rfl

theorem mem_seenIn {id : Nat} {visits : List Visit} {x : Nat × Placed} :
    x ∈ seenIn id visits ↔ x.1 = id ∧ x.2 ∈ visits.filterMap placedOf := by
  unfold seenIn
  rw [mem_map]
  constructor
  · rintro ⟨y, hy, rfl⟩
    exact ⟨rfl, hy⟩
  · rintro ⟨h1, h2⟩
    exact ⟨x.2, h2, Prod.ext h1.symm rfl⟩

/-- What the second pass saw, against the directory it started from. -/
structure SeenOf (env : Env) (s : Spool) (ids : List Nat) (seen : Seen) : Prop where
  mem : ∀ x ∈ seen, x.1 ∈ ids ∧ Item.put x.2.record.id x.2 ∈ s.log x.1
  whole : env.Opens → ∀ id ∈ ids, ∀ k x, Item.put k x ∈ s.log id → (id, x) ∈ seen
  single : (∀ id ∈ ids, ((s.log id).filterMap Item.putKey).Nodup) → seen.Single

theorem Passing.putKeys_sublist (h : Passing env s s') (g : Nat) :
    Sublist ((s'.log g).filterMap Item.putKey) ((s.log g).filterMap Item.putKey) := by
  simp only [Spool.log, putKeys_eq]
  exact ((h.visits g).sublist.filterMap _).map _

theorem Passing.mem_log_put (h : Passing env s s') {g : Nat} {k : UUID} {x : Placed}
    (hx : Item.put k x ∈ s'.log g) : Item.put k x ∈ s.log g := by
  rw [Spool.log, mem_logOf_put] at hx ⊢
  exact ⟨((h.visits g).sublist.filterMap _).subset hx.1, hx.2⟩

theorem SeenOf.one {id : Nat} {visits : List Visit}
    (hvisits : visits <+: (walk (s.content id)).visits)
    (hwhole : env.Opens → visits = (walk (s.content id)).visits) :
    SeenOf env s [id] (seenIn id visits) := by
  refine ⟨fun x hx => ?_, fun hopen id' hid' k x hx => ?_, fun hsingle => ?_⟩
  · obtain ⟨h1, h2⟩ := mem_seenIn.mp hx
    rw [h1, Spool.log, mem_logOf_put]
    exact ⟨mem_singleton_self id, (hvisits.sublist.filterMap _).subset h2, rfl⟩
  · rw [mem_singleton.mp hid', Spool.log, mem_logOf_put] at hx
    exact mem_seenIn.mpr ⟨mem_singleton.mp hid', hwhole hopen ▸ hx.1⟩
  · have hkeys := hsingle id (mem_singleton_self id)
    rw [Spool.log, putKeys_eq] at hkeys
    have hfirst := ((hvisits.sublist.filterMap placedOf).map (·.record.id)).nodup hkeys
    have hmap : (seenIn id visits).map (fun x => (x.1, x.2.record.id)) =
        ((visits.filterMap placedOf).map (·.record.id)).map (Prod.mk id) := by
      rw [seenIn, map_map, map_map]
      rfl
    unfold Seen.Single
    rw [hmap]
    exact hfirst.map fun a b hab => (Prod.mk.inj hab).2

theorem SeenOf.append {t : Spool} {ids ids' : List Nat} {seen' : Seen} (h : SeenOf env s ids seen)
    (hpass : Passing env s t) (h' : SeenOf env t ids' seen') (hdisj : ∀ g ∈ ids, g ∉ ids') :
    SeenOf env s (ids ++ ids') (seen ++ seen') := by
  refine ⟨fun x hx => ?_, fun hopen id hid k x hx => ?_, fun hsingle => ?_⟩
  · rcases mem_append.mp hx with hx | hx
    · exact ⟨mem_append_left _ (h.mem x hx).1, (h.mem x hx).2⟩
    · exact ⟨mem_append_right _ (h'.mem x hx).1, hpass.mem_log_put (h'.mem x hx).2⟩
  · rcases mem_append.mp hid with hid | hid
    · exact mem_append_left _ (h.whole hopen id hid k x hx)
    · exact mem_append_right _ (h'.whole hopen id hid k x (by rw [hpass.log hopen]; exact hx))
  · unfold Seen.Single
    rw [map_append, nodup_append]
    refine ⟨h.single fun id hid => hsingle id (mem_append_left _ hid),
      h'.single fun id hid => (hpass.putKeys_sublist id).nodup
        (hsingle id (mem_append_right _ hid)), ?_⟩
    rintro _ ha _ hb rfl
    obtain ⟨x, hx, hxa⟩ := mem_map.mp ha
    obtain ⟨y, hy, hyb⟩ := mem_map.mp hb
    have heq : y.1 = x.1 := (Prod.mk.inj (hyb.trans hxa.symm)).1
    exact hdisj x.1 (h.mem x hx).1 (heq ▸ (h'.mem y hy).1)

/-- What the second pass makes of the spool over a list of segments. -/
structure Passed (env : Env) (ids : List Nat) (s s' : Spool) (seen : Seen) : Prop where
  seenOf : SeenOf env s ids seen
  passing : Passing env s s'
  segments : ∀ g, g ∈ s'.segments ↔ g ∈ s.segments ∨ g ∈ ids
  nextID_le : s.nextID ≤ s'.nextID
  ids_le : ∀ id ∈ ids, id ≤ s'.nextID
  nextID : s'.nextID = s.nextID ∨ s'.nextID ∈ ids

theorem Passed.append {t : Spool} {ids ids' : List Nat} {seen' : Seen}
    (h : Passed env ids s t seen) (h' : Passed env ids' t s' seen')
    (hdisj : ∀ g ∈ ids, g ∉ ids') : Passed env (ids ++ ids') s s' (seen ++ seen') where
  seenOf := h.seenOf.append h.passing h'.seenOf hdisj
  passing := h.passing.trans h'.passing
  segments g := by
    rw [h'.segments, h.segments, mem_append, or_assoc]
  nextID_le := h.nextID_le.trans h'.nextID_le
  ids_le id hid := by
    rcases mem_append.mp hid with hid | hid
    · exact (h.ids_le id hid).trans h'.nextID_le
    · exact h'.ids_le id hid
  nextID := by
    rcases h'.nextID with hn | hn
    · rw [hn]
      exact h.nextID.imp id fun hn => mem_append_left _ hn
    · exact .inr (mem_append_right _ hn)

theorem indexSegment_spec (env : Env) (T : List UUID) (id : Nat) (s : Spool) (seen : Seen)
    (hseen : ∀ x ∈ seen, x.1 < id) (hseg : id ∉ s.segments) (h : Indexed env T seen s) :
    Frame s (indexSegment env T id s).2 ∧ ((indexSegment env T id s).1 = .ok () →
      ∃ seen', Indexed env T (seen ++ seen') (indexSegment env T id s).2 ∧
        Passed env [id] s (indexSegment env T id s).2 seen') ∧
    (env.Opens → id ∈ s.files → (indexSegment env T id s).1 = .ok ()) := by
  obtain ⟨hre, hinit, hall⟩ := walkSegment_spec env id s
  unfold indexSegment
  split
  next e t hw =>
    simp only [hw] at hre hall
    exact ⟨hre.passing.frame, nofun, fun hopen hid => nomatch hall hopen hid⟩
  next visits t hw =>
    simp only [hw] at hre hinit hall
    obtain ⟨hvisits, hid, -⟩ := hinit visits rfl
    have hin := (h.enter hre hseen hseg).visits visits
    obtain ⟨hpass, hnext, -, hsegs⟩ := indexVisits_frame env T id visits (t, 0)
    simp only
    generalize visits.foldl (indexVisit env T id) (t, 0) = acc at hin hpass hnext hsegs ⊢
    have htseg : t.segments = s.segments := by rw [hre.same]
    have htnext : t.nextID = s.nextID := by rw [hre.same]
    have hframe := (hre.passing.trans hpass).frame
    have hone : SeenOf env s [id] (seenIn id visits) :=
      .one hvisits fun hopen => Except.ok.inj (hall hopen hid)
    split
    next hf =>
      refine ⟨{ hframe with }, nofun, fun hopen _ => ?_⟩
      rw [hopen] at hf
      cases hf
    · refine ⟨{ hframe with }, fun _ => ⟨seenIn id visits, hin.leave rfl rfl rfl rfl rfl rfl, hone,
        ?_, fun g => ?_, ?_, ?_, ?_⟩, fun _ _ => rfl⟩
      · exact hre.passing.trans (hpass.trans ⟨rfl, rfl, rfl, rfl, rfl, fun _ => .rfl,
          fun _ => prefix_rfl, fun _ _ => rfl⟩)
      · rw [AList.mem_insert, hsegs, htseg, mem_singleton, or_comm]
      · show s.nextID ≤ if id > acc.1.nextID then id else acc.1.nextID
        rw [hnext, htnext]
        split <;> omega
      · intro id' hid'
        rw [mem_singleton.mp hid']
        show id ≤ if id > acc.1.nextID then id else acc.1.nextID
        split <;> omega
      · rw [hnext, htnext]
        split
        · exact .inr (mem_singleton_self id)
        · exact .inl rfl

/-- **The second pass.**  Over ascending segments not yet accounted it keeps the
invariant, and it goes through when no read fails. -/
theorem indexSegments_spec (env : Env) (T : List UUID) (ids : List Nat) (s : Spool) (seen : Seen)
    (hasc : ids.Pairwise (· < ·)) (hseen : ∀ x ∈ seen, ∀ id ∈ ids, x.1 < id)
    (hseg : ∀ id ∈ ids, id ∉ s.segments) (h : Indexed env T seen s) :
    Frame s (indexSegments env T ids s).2 ∧ ((indexSegments env T ids s).1 = .ok () →
      ∃ seen', Indexed env T (seen ++ seen') (indexSegments env T ids s).2 ∧
        Passed env ids s (indexSegments env T ids s).2 seen') ∧
    (env.Opens → (∀ id ∈ ids, id ∈ s.files) → (indexSegments env T ids s).1 = .ok ()) := by
  induction ids generalizing s seen with
  | nil =>
    exact ⟨.refl s, fun _ => ⟨[], by rw [append_nil]; exact h, ⟨by simp, by simp,
      fun _ => nodup_nil⟩, .refl env s, by simp [indexSegments], le_refl _, by simp,
      .inl rfl⟩, fun _ _ => rfl⟩
  | cons id ids ih =>
    obtain ⟨hlt, hasc⟩ := pairwise_cons.mp hasc
    obtain ⟨hframe, hok, hopens⟩ := indexSegment_spec env T id s seen
      (fun x hx => hseen x hx id mem_cons_self) (hseg id mem_cons_self) h
    rw [indexSegments]
    split
    next e t hw =>
      simp only [hw] at hframe hopens
      exact ⟨hframe, nofun, fun hopen hids => nomatch hopens hopen (hids id mem_cons_self)⟩
    next t hw =>
      simp only [hw] at hframe hok
      obtain ⟨seen₁, hindexed, hpassed⟩ := hok trivial
      have hnotin : ∀ g ∈ [id], g ∉ ids := by
        intro g hg hmem
        rw [mem_singleton.mp hg] at hmem
        exact Nat.lt_irrefl _ (hlt id hmem)
      obtain ⟨hframe', hok', hopens'⟩ := ih t (seen ++ seen₁) hasc
        (by
          intro x hx id' hid'
          rcases mem_append.mp hx with hx | hx
          · exact hseen x hx id' (mem_cons_of_mem id hid')
          · rw [mem_singleton.mp (hpassed.seenOf.mem x hx).1]
            exact hlt id' hid')
        (by
          intro id' hid' hmem
          rcases (hpassed.segments id').mp hmem with hmem | hmem
          · exact hseg id' (mem_cons_of_mem id hid') hmem
          · exact hnotin id' hmem hid')
        hindexed
      refine ⟨hframe.trans hframe', fun hres => ?_, fun hopen hids => hopens' hopen fun id' hid' =>
        (hpassed.passing.files id').mpr (hids id' (mem_cons_of_mem id hid'))⟩
      obtain ⟨seen₂, hindexed₂, hpassed₂⟩ := hok' hres
      exact ⟨seen₁ ++ seen₂, by rw [← append_assoc]; exact hindexed₂,
        hpassed.append hpassed₂ hnotin⟩

/-! ## The removal of dead segments -/

/-- A segment that is not the newest and whose counter is zero. -/
def Spool.Dead (s : Spool) (g : Nat) : Prop :=
  g ≠ s.nextID ∧ ∃ st, s.segments.lookup g = some st ∧ st.live = 0

/-- The spool without the dead segments of a list. -/
structure Cleared (ids : List Nat) (s s' : Spool) : Prop where
  same : s' = { s with tick := s'.tick, files := s'.files, segments := s'.segments }
  dead : ∀ g ∈ ids, s.Dead g → s'.files.lookup g = none ∧ s'.segments.lookup g = none
  kept : ∀ g, ¬(g ∈ ids ∧ s.Dead g) →
    s'.files.lookup g = s.files.lookup g ∧ s'.segments.lookup g = s.segments.lookup g

theorem removeDead_spec (env : Env) (ids : List Nat) (s : Spool) (hnodup : ids.Nodup)
    (hmem : ∀ id ∈ ids, id ∈ s.segments) :
    Frame s (removeDead env ids s).2 ∧
      ((removeDead env ids s).1 = .ok () → Cleared ids s (removeDead env ids s).2) ∧
      (env.Opens → (removeDead env ids s).1 = .ok ()) := by
  induction ids generalizing s with
  | nil => exact ⟨.refl s, fun _ => ⟨rfl, by simp, fun g _ => ⟨rfl, rfl⟩⟩, fun _ => rfl⟩
  | cons id ids ih =>
    obtain ⟨hid, hnodup⟩ := nodup_cons.mp hnodup
    obtain ⟨st, hst⟩ := Option.isSome_iff_exists.mp
      (AList.lookup_isSome.mpr (hmem id mem_cons_self))
    have hmem' : ∀ id' ∈ ids, id' ∈ s.segments := fun id' h => hmem id' (mem_cons_of_mem id h)
    rw [removeDead, hst]
    simp only
    split
    next hdead =>
      have hdead' : s.Dead id := ⟨hdead.2, st, hst, hdead.1⟩
      split
      next hf =>
        refine ⟨{ Frame.refl s with }, nofun, fun hopen => ?_⟩
        rw [hopen] at hf
        cases hf
      · have hseg : ∀ g, g ≠ id →
            (s.next.removeSegment id).segments.lookup g = s.segments.lookup g :=
          fun g hg => AList.lookup_erase_ne hg
        have hiff : ∀ g, g ≠ id → ((s.next.removeSegment id).Dead g ↔ s.Dead g) := by
          intro g hg
          unfold Spool.Dead
          rw [hseg g hg]
          rfl
        obtain ⟨hframe, hok, hopens⟩ := ih (s.next.removeSegment id) hnodup fun id' h =>
          AList.mem_erase.mpr ⟨fun heq => hid (heq ▸ h), hmem' id' h⟩
        refine ⟨{ hframe with }, fun h => ?_, hopens⟩
        obtain ⟨hsame, hd, hk⟩ := hok h
        have hself : ¬(id ∈ ids ∧ (s.next.removeSegment id).Dead id) := fun h => hid h.1
        refine ⟨by rw [hsame]; rfl, fun g hg hgd => ?_, fun g hg => ?_⟩
        · by_cases hgid : g = id
          · subst hgid
            obtain ⟨h1, h2⟩ := hk g hself
            exact ⟨h1.trans (AList.lookup_erase g s.files),
              h2.trans (AList.lookup_erase g s.segments)⟩
          · exact hd g ((mem_cons.mp hg).resolve_left hgid) ((hiff g hgid).mpr hgd)
        · have hgid : g ≠ id := by
            rintro rfl
            exact hg ⟨mem_cons_self, hdead'⟩
          obtain ⟨h1, h2⟩ := hk g fun h =>
            hg ⟨mem_cons_of_mem id h.1, (hiff g hgid).mp h.2⟩
          exact ⟨h1.trans (AList.lookup_erase_ne hgid), h2.trans (hseg g hgid)⟩
    next hdead =>
      have hnot : ¬s.Dead id := by
        rintro ⟨h1, st', hst', h2⟩
        rw [hst] at hst'
        cases hst'
        exact hdead ⟨h2, h1⟩
      obtain ⟨hframe, hok, hopens⟩ := ih s hnodup hmem'
      refine ⟨hframe, fun h => ?_, hopens⟩
      obtain ⟨hsame, hd, hk⟩ := hok h
      refine ⟨hsame, fun g hg hgd => ?_, fun g hg => hk g fun h =>
        hg ⟨mem_cons_of_mem id h.1, h.2⟩⟩
      rcases mem_cons.mp hg with rfl | hg
      · exact absurd hgd hnot
      · exact hd g hg hgd

theorem listSegments_spec (haliases : s.aliases = []) :
    s.listSegments.Pairwise (· < ·) ∧ ∀ g, g ∈ s.listSegments ↔ g ∈ s.files := by
  have hperm := perm_insertionSort (· ≤ ·) (s.files.keys ++ s.aliases)
  rw [haliases, append_nil] at hperm
  have hsorted := pairwise_insertionSort (· ≤ ·) (s.files.keys ++ s.aliases)
  rw [haliases, append_nil] at hsorted
  have hnodup : (s.files.keys.insertionSort (· ≤ ·)).Nodup :=
    hperm.nodup_iff.mpr s.files.keys_nodup
  unfold Spool.listSegments
  rw [haliases, append_nil]
  refine ⟨?_, fun g => ?_⟩
  · exact (hsorted.and hnodup).imp fun h => lt_of_le_of_ne h.1 h.2
  · rw [mem_insertionSort, AList.mem_keys]

theorem indexed_blank (env : Env) (T : List UUID) (hindex : s.index = ∅) (hptr : s.nextPtr = 0)
    (hlive : s.live = 0) (hsegments : s.segments = ∅) (hbyHost : s.byHost = ∅) :
    Indexed env T [] s := by
  have hno : ∀ k p, s.index.lookup k ≠ some p := by simp [hindex]
  have hseg : ∀ g st, s.segments.lookup g ≠ some st := by simp [hsegments]
  have hpointers : s.pointers = [] := by
    unfold Spool.pointers
    rw [hindex]
    rfl
  refine ⟨⟨fun k p hp => absurd hp (hno k p), fun k p hp => absurd hp (hno k p), fun p hp => ?_,
    fun k p hp => absurd hp (hno k p), by simp⟩, ?_, fun g st hst => absurd hst (hseg g st),
    fun _ g st hst => absurd hst (hseg g st), fun _ h => ?_⟩
  · rw [hptr] at hp
    exact absurd hp (Nat.not_lt_zero p)
  · rw [hlive, Spool.fill, hpointers]
    rfl
  · have hnil : s.hostList h = [] := by
      rw [Spool.hostList, hbyHost]
      rfl
    rw [hnil, hpointers]
    simp

end Flotestro.RelaySpool
