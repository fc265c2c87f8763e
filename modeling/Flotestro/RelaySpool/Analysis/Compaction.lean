import Flotestro.RelaySpool.Analysis.Effects

/-!
# A compaction as a sequence of steps

A compaction is a sequence of three kinds of step: an entry is copied into the active segment,
a segment in which no entry stands any more and which is the oldest of those left is removed,
or only the clock moves (`Compacting`); when it does not end, a failed write or nothing at all
follows (`Failed`).  What every such step keeps, a compaction keeps.
-/

set_option autoImplicit false

namespace Flotestro.RelaySpool

open Library Relation List

variable {env : Env} {s s' : Spool}

/-- One step of a compaction. -/
inductive Compacting (env : Env) : Spool → Spool → Prop where
  | moved {s : Spool} (t : Nat) (later : s.tick ≤ t) : Compacting env s { s with tick := t }
  | copied {s : Spool} (a : Segment) (p : Nat) (r : Record) (active : s.active = some a)
      (mem : p ∈ s.pointers) (elsewhere : (s.heap p).segment ≠ a.id)
      (read : (readLocked env p s).1 = .ok r) :
      Compacting env s (s.copied a p r)
  | emptied {s : Spool} (g : Nat) (empty : ∀ p ∈ s.pointers, (s.heap p).segment ≠ g)
      (inactive : s.activeID ≠ some g)
      (oldest : ∀ g' ∈ s.segments, s.activeID ≠ some g' → g ≤ g') :
      Compacting env s (s.next.removeSegment g)

/-- The steps of a compaction up to the point where it ends or fails. -/
def CompactingTo (env : Env) (s s' : Spool) : Prop :=
  ∃ t, ReflTransGen (Compacting env) s t ∧ (s' = t ∨ Failed env t s')

theorem CompactingTo.of_steps (h : ReflTransGen (Compacting env) s s') : CompactingTo env s s' :=
  ⟨s', h, .inl rfl⟩

theorem CompactingTo.head {t : Spool} (h : ReflTransGen (Compacting env) s t)
    (h' : CompactingTo env t s') : CompactingTo env s s' := by
  obtain ⟨u, hu, hlast⟩ := h'
  exact ⟨u, h.trans hu, hlast⟩

theorem Spool.ne_of_activeID {g : Nat} {a : Segment} (hg : s.activeID ≠ some g)
    (ha : s.active = some a) : a.id ≠ g := by
  rintro rfl
  exact hg (by rw [Spool.activeID, ha]; rfl)

theorem modify_keys {β : Type} (m : AList fun _ : Nat => β) (k : Nat) (f : β → β) (k' : Nat) :
    k' ∈ modify m k f ↔ k' ∈ m := by
  unfold modify
  split
  · rfl
  next v hv =>
    rw [AList.mem_insert, or_iff_right_iff_imp]
    rintro rfl
    exact AList.lookup_isSome.mp (by simp [hv])

/-- What the copies of one round leave in place. -/
structure RoundFrame (s s' : Spool) : Prop where
  index : s'.index = s.index
  activeID : s'.activeID = s.activeID
  segments : ∀ g, g ∈ s'.segments ↔ g ∈ s.segments

theorem copied_frame {a : Segment} {p : Nat} {r : Record} (ha : s.active = some a) :
    RoundFrame s (s.copied a p r) where
  index := rfl
  activeID := by
    rw [Spool.activeID, Spool.activeID, ha]
    rfl
  segments g := modify_keys s.segments a.id _ g

/-- The copies of a round are steps of a compaction; when all went through, no entry
of the list stands in the segment any more. -/
theorem copyEntries_path (env : Env) (id : Nat) (l : List Nat) (s : Spool)
    (hl : ∀ p ∈ l, p ∈ s.pointers) (hid : s.activeID ≠ some id) :
    CompactingTo env s (copyEntries env id l s).2 ∧ ((copyEntries env id l s).1 = .ok () →
        ReflTransGen (Compacting env) s (copyEntries env id l s).2 ∧
        RoundFrame s (copyEntries env id l s).2 ∧ ∀ p, p ∈ l ∨ (s.heap p).segment ≠ id →
          ((copyEntries env id l s).2.heap p).segment ≠ id) := by
  induction l generalizing s with
  | nil =>
    exact ⟨.of_steps .refl, fun _ => ⟨.refl, ⟨rfl, rfl, fun _ => .rfl⟩, by simp [copyEntries]⟩⟩
  | cons q l ih =>
    rw [copyEntries]
    split
    next hq =>
      obtain ⟨hpath, hok⟩ := ih s (fun p hp => hl p (mem_cons_of_mem q hp)) hid
      refine ⟨hpath, fun h => ⟨(hok h).1, (hok h).2.1, fun p hp => (hok h).2.2 p ?_⟩⟩
      rcases hp with hp | hp
      · rcases mem_cons.mp hp with rfl | hp
        · exact .inr hq
        · exact .inl hp
      · exact .inr hp
    next hq =>
      rcases copyRecord_cases env q s with ⟨a, r, ha, -, -, hr, heq⟩ | ⟨e, s', heq, hfailed⟩
      · have hframe := copied_frame (p := q) (r := r) ha
        have hne := s.ne_of_activeID hid ha
        have hpointers : (s.copied a q r).pointers = s.pointers := rfl
        obtain ⟨hpath, hok⟩ := ih (s.copied a q r)
          (fun p hp => hpointers ▸ hl p (mem_cons_of_mem q hp)) (hframe.activeID ▸ hid)
        rw [heq]
        have hother : (s.heap q).segment ≠ a.id := fun h => hne (h.symm.trans (not_not.mp hq))
        have hcopied : Compacting env s (s.copied a q r) :=
          .copied a q r ha (hl q mem_cons_self) hother hr
        have hstep := ReflTransGen.single hcopied
        refine ⟨hpath.head hstep, fun h => ?_⟩
        obtain ⟨hsteps, hf, hleft⟩ := hok h
        refine ⟨hstep.trans hsteps, ⟨hf.index.trans hframe.index, hf.activeID.trans hframe.activeID,
          fun g => (hf.segments g).trans (hframe.segments g)⟩, fun p hp => hleft p ?_⟩
        by_cases hpq : p = q
        · subst hpq
          refine .inr ?_
          show (Function.update s.heap p _ p).segment ≠ id
          simpa using hne
        · rcases hp with hp | hp
          · exact .inl ((mem_cons.mp hp).resolve_left hpq)
          · refine .inr ?_
            show (Function.update s.heap q _ p).segment ≠ id
            simpa [hpq] using hp
      · rw [heq]
        exact ⟨⟨s, .refl, .inr hfailed⟩, fun h => by cases h⟩

/-- A round is a sequence of steps of a compaction; when it went through, the
segment is gone. -/
theorem compactRound_path (env : Env) (id : Nat) (s : Spool) (hid : s.activeID ≠ some id)
    (hold : ∀ g ∈ s.segments, s.activeID ≠ some g → id ≤ g) :
    CompactingTo env s (compactRound env id s).2 ∧ ((compactRound env id s).1 = .ok () →
        ReflTransGen (Compacting env) s (compactRound env id s).2 ∧
        (compactRound env id s).2.activeID = s.activeID ∧
        ∀ g, g ∈ (compactRound env id s).2.segments ↔ g ≠ id ∧ g ∈ s.segments) := by
  have htick : ∀ t : Spool, Compacting env t t.next := fun t =>
    .moved (t.tick + 1) (Nat.le_succ _)
  have hperm := env.order_perm s.tick s.pointers
  obtain ⟨hpath, hok⟩ := copyEntries_path env id (env.order s.tick s.pointers) s.next
    (fun p hp => hperm.mem_iff.mp hp) hid
  unfold compactRound
  split
  next e t hc =>
    simp only [hc] at hpath
    exact ⟨hpath.head (.single (htick s)), fun h => by cases h⟩
  next t hc =>
  simp only [hc] at hok
  obtain ⟨hsteps, hframe, hleft⟩ := hok trivial
  have hpath₁ : ReflTransGen (Compacting env) s t := hsteps.head (htick s)
  have hempty : ∀ p ∈ t.pointers, (t.heap p).segment ≠ id := by
    intro p hp
    refine hleft p (.inl (hperm.mem_iff.mpr ?_))
    rwa [Spool.pointers, hframe.index] at hp
  have hu := syncActive_state env t
  generalize hsync : syncActive env t = sync at hu ⊢
  obtain ⟨result, u⟩ := sync
  have hpath₂ : ReflTransGen (Compacting env) s u := by
    rcases hu with rfl | rfl
    · exact hpath₁
    · exact hpath₁.tail (htick t)
  obtain ⟨hup, huh, hua, hus⟩ : u.pointers = t.pointers ∧ u.heap = t.heap ∧
      u.activeID = t.activeID ∧ u.segments = t.segments := by
    rcases hu with rfl | rfl <;> exact ⟨rfl, rfl, rfl, rfl⟩
  cases result with
  | error e => exact ⟨.of_steps hpath₂, fun h => by cases h⟩
  | ok _ =>
    simp only
    split
    · exact ⟨.of_steps (hpath₂.tail (htick u)), fun h => by cases h⟩
    have hactive : u.activeID = s.activeID := hua.trans hframe.activeID
    have hseg : ∀ g, g ∈ u.segments ↔ g ∈ s.segments := fun g => by
      rw [hus]
      exact hframe.segments g
    have hsteps' : ReflTransGen (Compacting env) s (u.next.removeSegment id) := by
      refine hpath₂.tail (.emptied id (fun p hp => ?_) (hactive ▸ hid) fun g hg ha => ?_)
      · rw [huh]
        exact hempty p (hup ▸ hp)
      · exact hold g ((hseg g).mp hg) (hactive ▸ ha)
    refine ⟨.of_steps hsteps', fun _ => ⟨hsteps', hactive, fun g => ?_⟩⟩
    show g ∈ u.segments.erase id ↔ _
    rw [AList.mem_erase, hseg]

/-- The rounds of a compaction, over ascending segments, are a sequence of steps. -/
theorem compactRounds_path (env : Env) (ids : List Nat) (s : Spool)
    (hsorted : ids.Pairwise (· ≤ ·)) (hids : ∀ id ∈ ids, s.activeID ≠ some id)
    (hall : ∀ g ∈ s.segments, s.activeID ≠ some g → g ∈ ids) :
    CompactingTo env s (compactRounds env ids s).2 := by
  induction ids generalizing s with
  | nil => exact .of_steps .refl
  | cons id ids ih =>
    obtain ⟨hle, hsorted⟩ := pairwise_cons.mp hsorted
    have hold : ∀ g ∈ s.segments, s.activeID ≠ some g → id ≤ g := by
      intro g hg ha
      rcases mem_cons.mp (hall g hg ha) with rfl | hg
      · exact le_refl g
      · exact hle g hg
    obtain ⟨hpath, hok⟩ := compactRound_path env id s (hids id mem_cons_self) hold
    rw [compactRounds]
    split
    next e t hr =>
      simp only [hr] at hpath
      exact hpath
    next t hr =>
      simp only [hr] at hok
      obtain ⟨hsteps, hactive, hsegments⟩ := hok trivial
      refine (ih t hsorted ?_ ?_).head hsteps
      · intro id' hid'
        rw [hactive]
        exact hids id' (mem_cons_of_mem id hid')
      · intro g hg ha
        obtain ⟨hne, hg⟩ := (hsegments g).mp hg
        exact (mem_cons.mp (hall g hg (hactive ▸ ha))).resolve_left hne

/-- **A compaction is a sequence of copies and of removals of the oldest, emptied
segment**, wherever it stops. -/
theorem compactOlder_path (env : Env) (s : Spool) : CompactingTo env s (compactOlder env s).2 := by
  have hmem : ∀ g, g ∈ s.olderSegments ↔ g ∈ s.segments ∧ s.activeID ≠ some g := by
    intro g
    rw [Spool.olderSegments, mem_insertionSort, AList.mem_keys]
    simp
  refine compactRounds_path env s.olderSegments s ?_ (fun g hg => ((hmem g).mp hg).2)
    fun g hg ha => (hmem g).mpr ⟨hg, ha⟩
  exact pairwise_insertionSort (· ≤ ·) _

/-- What every step of a compaction keeps and its failure turns into `J`, a
compaction turns into `J`. -/
theorem CompactingTo.inv {I J : Spool → Prop} (hpath : CompactingTo env s s')
    (h : ∀ t t', Compacting env t t' → I t → I t') (hend : ∀ t, I t → J t)
    (hfail : ∀ t t', Failed env t t' → I t → J t') (hs : I s) : J s' := by
  obtain ⟨t, hsteps, hlast⟩ := hpath
  have ht : I t := by
    clear hlast
    induction hsteps with
    | refl => exact hs
    | tail _ hstep ih => exact h _ _ hstep ih
  rcases hlast with heq | hfailed
  · rw [heq]
    exact hend t ht
  · exact hfail t _ hfailed ht

end Flotestro.RelaySpool
