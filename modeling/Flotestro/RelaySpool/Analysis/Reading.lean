import Flotestro.RelaySpool.Analysis.Effects
import Mathlib.Data.List.Infix

/-!
# Reading the directory

What the walks of a start of the process leave of the files and what they hand on.  A walk
may cut a file, so the directory changes while it is read; no frame that was visited is lost
by it (`Reread`), and when no read fails every frame is visited.
-/

set_option autoImplicit false

namespace Flotestro.RelaySpool

open Library List

variable {env : Env} {s s' : Spool}

/-- No operation of a start of the process fails. -/
def Env.Opens (env : Env) : Prop := ∀ t, env.openFault t = none

/-- What reading the files leaves of the spool: the same files, each cut behind one
of its frames at most, and behind the last one that can be read when no read failed. -/
structure Reread (env : Env) (s s' : Spool) : Prop where
  same : s' = { s with tick := s'.tick, files := s'.files }
  files : ∀ g, g ∈ s'.files ↔ g ∈ s.files
  visits : ∀ g, (walk (s'.content g)).visits <+: (walk (s.content g)).visits
  whole : env.Opens → ∀ g, (walk (s'.content g)).visits = (walk (s.content g)).visits

theorem Reread.refl (env : Env) (s : Spool) : Reread env s s :=
  ⟨rfl, fun _ => .rfl, fun _ => prefix_rfl, fun _ _ => rfl⟩

theorem Reread.trans {t : Spool} (h : Reread env s t) (h' : Reread env t s') :
    Reread env s s' where
  same := by
    rw [h'.same, h.same]
  files g := (h'.files g).trans (h.files g)
  visits g := (h'.visits g).trans (h.visits g)
  whole hopen g := (h'.whole hopen g).trans (h.whole hopen g)

theorem Reread.log (h : Reread env s s') (hopen : env.Opens) : s'.log = s.log := by
  funext g
  simp [Spool.log, logOf, h.whole hopen]

theorem Reread.tick (env : Env) (s : Spool) (t : Nat) : Reread env s { s with tick := t } :=
  ⟨rfl, fun _ => .rfl, fun _ => prefix_rfl, fun _ _ => rfl⟩

theorem Reread.cut {id : Nat} {content : Bytes} (t : Nat) (hid : id ∈ s.files)
    (hvisits : (walk content).visits <+: (walk (s.content id)).visits)
    (hwhole : env.Opens → (walk content).visits = (walk (s.content id)).visits) :
    Reread env s { s with tick := t, files := s.files.insert id content } := by
  have hcontent : ∀ g, ({ s with tick := t, files := s.files.insert id content } : Spool).content g =
      if g = id then content else s.content g :=
    content_insert rfl
  refine ⟨rfl, fun g => ?_, fun g => ?_, fun hopen g => ?_⟩
  · rw [AList.mem_insert, or_iff_right_iff_imp]
    rintro rfl
    exact hid
  · rw [hcontent]
    split
    next hg =>
      rw [hg]
      exact hvisits
    · exact prefix_rfl
  · rw [hcontent]
    split
    next hg =>
      rw [hg]
      exact hwhole hopen
    · rfl

/-- A file cut where a walk of a part of it stopped. -/
theorem take_stop_spec (content : Bytes) (n : Nat) :
    (walk (content.take (walk (content.take n)).stop)).visits = (walk (content.take n)).visits ∧
      Clean (content.take (walk (content.take n)).stop) := by
  have hstop : (walk (content.take n)).stop ≤ (content.take n).length := by
    have := (walkAt_stop_bounds 0 (content.take n)).2
    rwa [Nat.zero_add] at this
  have htake : content.take (walk (content.take n)).stop =
      (content.take n).take (walk (content.take n)).stop := by
    rw [take_take, Nat.min_eq_left]
    exact hstop.trans (length_take_le _ _)
  rw [htake]
  exact walk_take_stop (content.take n)

/-- **One walk.**  It hands on the first frames of the file, all of them when no read
failed, and leaves the file clean. -/
theorem walkSegment_spec (env : Env) (id : Nat) (s : Spool) :
    Reread env s (walkSegment env id s).2 ∧ (∀ visits, (walkSegment env id s).1 = .ok visits →
        visits <+: (walk (s.content id)).visits ∧ id ∈ s.files ∧
          Clean ((walkSegment env id s).2.content id)) ∧ (env.Opens → id ∈ s.files →
        (walkSegment env id s).1 = .ok (walk (s.content id)).visits) := by
  unfold walkSegment
  cases hc : s.files.lookup id with
  | none =>
    refine ⟨.tick env s _, fun visits h => (by cases h), fun _ hid => ?_⟩
    exact absurd hid (AList.lookup_eq_none.mp hc)
  | some content =>
    have hid : id ∈ s.files := AList.lookup_isSome.mp (by rw [hc]; rfl)
    have hcontent : s.content id = content := by
      rw [Spool.content, hc]
      rfl
    simp only
    rw [hcontent]
    split
    next hf =>
      refine ⟨.tick env s _, fun visits h => (by cases h), fun hopen _ => ?_⟩
      rw [hopen] at hf
      cases hf
    · cases hread : env.openFault (s.tick + 1) with
      | none =>
        simp only [Option.isSome_none, Bool.false_eq_true, or_false]
        have hcut : Reread env s { s with
            tick := s.tick + 4, files := s.files.insert id (content.take (walk content).stop) } :=
          .cut _ hid (by rw [hcontent, (walk_take_stop content).1])
            fun _ => by rw [hcontent, (walk_take_stop content).1]
        split
        · split
          next ht =>
            refine ⟨.tick env s _, fun visits h => (by cases h), fun hopen _ => ?_⟩
            rw [hopen] at ht
            cases ht
          · refine ⟨hcut, fun visits h => ?_, fun hopen _ => ?_⟩
            · split at h
              · cases h
              · cases h
                refine ⟨prefix_rfl, hid, ?_⟩
                rw [content_insert (s := s) rfl, if_pos rfl]
                exact (walk_take_stop content).2
            · rw [hopen]
              rfl
        next htorn =>
          refine ⟨.tick env s _, fun visits h => ?_, fun _ _ => rfl⟩
          cases h
          refine ⟨prefix_rfl, hid, ?_⟩
          rw [show ({ s with tick := s.tick + 2 } : Spool).content id = s.content id from rfl,
            hcontent]
          exact Bool.eq_false_iff.mpr htorn
      | some n =>
        have hinit : (walk (content.take n)).visits <+: (walk content).visits :=
          walkAt_take_visits 0 n content
        simp only [Option.isSome_some, or_true, if_true]
        have hnot : ¬env.Opens := fun hopen => by
          rw [hopen] at hread
          cases hread
        split
        · exact ⟨.tick env s _, fun visits h => (by cases h), fun hopen _ => absurd hopen hnot⟩
        refine ⟨.cut _ hid ?_ fun hopen => absurd hopen hnot, fun visits h => ?_,
          fun hopen _ => absurd hopen hnot⟩
        · rw [hcontent, (take_stop_spec content n).1]
          exact hinit
        · split at h
          · cases h
          · cases h
            refine ⟨hinit, hid, ?_⟩
            rw [content_insert (s := s) rfl, if_pos rfl]
            exact (take_stop_spec content n).2

/-- **The format of a segment.**  Of a file that holds frames cut at any byte a walk hands on the
frames that end before the cut, at their offsets, and the file ends behind the last of them; and
the body of a record that can be encoded is decoded to the record. -/
theorem walkSegment_cut (hopen : env.Opens) {id : Nat} (fs : List (UInt8 × Bytes)) (cut : Nat)
    (hmax : ∀ f ∈ fs, f.2.length ≤ maxRecordBytes)
    (h : s.files.lookup id = some ((framesOf fs).take cut)) :
    ((walkSegment env id s).1 = .ok (visitsFrom 0 (wholeBefore cut fs)) ∧
      (walkSegment env id s).2.content id = framesOf (wholeBefore cut fs)) ∧
      ∀ r : Record, r.Encodable → decode r.encode = some r := by
  refine ⟨?_, fun r hr => hr.decode_encode⟩
  obtain ⟨torn, hwalk, hpre, hwhole⟩ := walkAt_cut hmax 0 cut
  rw [← walk, Nat.zero_add] at hwalk
  have hno : ∀ t, env.openFault t = none := hopen
  rw [walkSegment, h]
  simp only [hno, hwalk, Option.isSome_none, Bool.false_eq_true, or_false, if_false]
  cases torn with
  | true =>
    refine ⟨rfl, ?_⟩
    rw [if_pos rfl, content_insert (s := s) (g := id) rfl, if_pos rfl]
    exact (prefix_iff_eq_take.mp hpre).symm
  | false =>
    refine ⟨rfl, ?_⟩
    rw [if_neg Bool.false_ne_true, Spool.content, h]
    exact hwhole rfl

theorem walkSegment_cut_in_body :
    let s := Spool.unopened smallOptions
      (AList.singleton 1 ((framesOf [(1, [7]), (2, [8])]).take 27)) []
    ((walkSegment calm 1 s).1 = .ok [⟨1, [7], 0, 14⟩] ∧
      (walkSegment calm 1 s).2.content 1 = frame 1 [7]) ∧
      ∀ r : Record, r.Encodable → decode r.encode = some r :=
  walkSegment_cut (fun _ => rfl) [(1, [7]), (2, [8])] 27 (by decide) rfl

theorem tombstoneOf_eq_some_iff {v : Visit} {k : UUID} :
    tombstoneOf v = some k ↔ itemOf v = some (.del k) := by
  unfold itemOf
  by_cases hk : v.kind = kindRecord
  · have hne : ¬(v.kind = kindTombstone ∧ v.body.length = 16) := by
      rw [hk]
      rintro ⟨h, -⟩
      cases h
    rw [tombstoneOf, dif_neg hne]
    cases decode v.body <;> simp
  · rw [if_neg hk]
    cases tombstoneOf v <;> simp

theorem mem_logOf_del {content : Bytes} {k : UUID} :
    Item.del k ∈ logOf content ↔ k ∈ (walk content).visits.filterMap tombstoneOf := by
  simp [logOf, tombstoneOf_eq_some_iff]

/-- The first pass collects what the listed segments bury. -/
theorem collectTombstones_spec (env : Env) (ids : List Nat) (tombstones : List UUID) (s : Spool) :
    Reread env s (collectTombstones env ids tombstones s).2 ∧
      (env.Opens → (∀ id ∈ ids, id ∈ s.files) →
        ∃ T, (collectTombstones env ids tombstones s).1 = .ok T ∧
          ∀ k, k ∈ T ↔ k ∈ tombstones ∨ ∃ g ∈ ids, Item.del k ∈ s.log g) := by
  induction ids generalizing tombstones s with
  | nil => exact ⟨.refl env s, fun _ _ => ⟨tombstones, rfl, by simp⟩⟩
  | cons id ids ih =>
    obtain ⟨hre, -, hall⟩ := walkSegment_spec env id s
    rw [collectTombstones]
    split
    next e t hw =>
      simp only [hw] at hre hall
      exact ⟨hre, fun hopen hids => nomatch hall hopen (hids id mem_cons_self)⟩
    next visits t hw =>
      simp only [hw] at hre hall
      obtain ⟨hre', hall'⟩ := ih (tombstones ++ visits.filterMap tombstoneOf) t
      refine ⟨hre.trans hre', fun hopen hids => ?_⟩
      have hvisits : visits = (walk (s.content id)).visits :=
        Except.ok.inj (hall hopen (hids id mem_cons_self))
      obtain ⟨T, hT, hmem⟩ := hall' hopen fun id' hid' =>
        (hre.files id').mpr (hids id' (mem_cons_of_mem id hid'))
      refine ⟨T, hT, fun k => ?_⟩
      rw [hmem, mem_append, hre.log hopen, hvisits, ← mem_logOf_del]
      constructor
      · rintro ((hk | hk) | ⟨g, hg, hk⟩)
        · exact .inl hk
        · exact .inr ⟨id, mem_cons_self, hk⟩
        · exact .inr ⟨g, mem_cons_of_mem id hg, hk⟩
      · rintro (hk | ⟨g, hg, hk⟩)
        · exact .inl (.inl hk)
        · rcases mem_cons.mp hg with rfl | hg
          · exact .inl (.inr hk)
          · exact .inr ⟨g, hg, hk⟩

end Flotestro.RelaySpool
