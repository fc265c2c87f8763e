import Flotestro.RelaySpool.Analysis.Steps

/-!
# The accounts along a run

The three accounts hold in every state of a run that meets `KeepsAccounts`, whatever fails in
it.  The argument is a round of the compaction: each copy leaves the segment that is emptied with
a counter one too high (`Owing`), and its removal at the end of the round takes the debt away.
-/

set_option autoImplicit false

namespace Flotestro.RelaySpool

open Library List

variable {env : Env} {s s' : Spool} {c : Cmd}

/-! ## One round of a compaction -/

/-- The accounts hold, but for the counter of one segment, which is too high. -/
structure Owing (g n : Nat) (s : Spool) : Prop where
  live : s.live = s.fill
  hosted : s.Hosted
  segment : ∀ g' st, s.segments.lookup g' = some st →
    st.live = s.standing g' + if g' = g then (n : Int) else 0

theorem Accounts.owing (h : Accounts s) (g : Nat) : Owing g 0 s :=
  ⟨h.live, h.hosted, fun g' st hst => by simp [h.segment g' st hst]⟩

variable {g id n p : Nat} {a : Segment}

/-- A copied entry is counted where it went, and its old segment owes it. -/
theorem Owing.copied (h : Owing g n s) (hl : Linked s) (r : Record) (hp : p ∈ s.pointers)
    (hseg : (s.heap p).segment = g) (hother : a.id ≠ g) : Owing g (n + 1) (s.copied a p r) := by
  have hmove : ∀ f, (s.copied a p r).total f + f (s.heap p) =
      s.total f + f { s.heap p with segment := a.id, offset := a.size } :=
    fun f => total_move f hl.nodup_pointers hp rfl rfl
  refine ⟨?_, ?_, fun g' st hst => ?_⟩
  · have hsize := hmove Entry.size
    have hlive := h.live
    show s.live = _
    rw [fill_eq_total] at hlive ⊢
    simp only at hsize
    omega
  · exact h.hosted.congr rfl rfl (update_field Entry.hostID s.heap p (by rfl))
  · have hcount := hmove (inSegment g')
    rw [← standing_eq_total, ← standing_eq_total, inSegment, inSegment, hseg] at hcount
    obtain ⟨st₀, hst₀, rfl⟩ := exists_of_lookup_modify hst
    have hold := h.segment g' st₀ hst₀
    by_cases hg : g' = a.id
    · subst hg
      rw [if_neg (Ne.symm hother), if_pos rfl] at hcount
      rw [if_pos rfl]
      simp only
      omega
    · rw [if_neg (Ne.symm hg)] at hcount
      rw [if_neg hg]
      by_cases hgg : g' = g
      · rw [if_pos hgg.symm] at hcount
        omega
      · rw [if_neg (Ne.symm hgg)] at hcount
        omega

/-- The removal of the segment settles what it owes. -/
theorem Owing.removed (h : Owing g n s) : Accounts (s.next.removeSegment g) := by
  refine ⟨h.live, h.hosted, fun g' st hst => ?_⟩
  rw [show (s.next.removeSegment g).segments = s.segments.erase g from rfl,
    lookup_erase_ite] at hst
  split at hst
  · cases hst
  next hg =>
    have hold := h.segment g' st hst
    rw [if_neg hg] at hold
    exact hold

theorem Owing.tick (h : Owing g n s) (t : Nat) : Owing g n { s with tick := t } :=
  ⟨h.live, h.hosted, h.segment⟩

theorem isOk_iff {α : Type} {x : Except Err α} : x.isOk = true ↔ ∃ a, x = .ok a := by
  cases x with
  | error e | ok a => simp [Except.toBool]

theorem copyRecord_ready (ha : s.active = some a) (hopened : a.opened = true)
    (hread : s.readable p = true) (hcalm : env.Calm s.tick 3) :
    ∃ r, copyRecord env p s = (.ok (), s.copied a p r) := by
  obtain ⟨content, hcontent, hok⟩ := (Option.any_eq_true _ _).mp hread
  obtain ⟨r, hr⟩ := isOk_iff.mp hok
  have h0 : env.fault s.tick = none := hcalm 0 (by omega)
  have h1 : env.fault (s.tick + 1) = none := hcalm 1 (by omega)
  have h2 : env.fault (s.tick + 2) = none := hcalm 2 (by omega)
  have hreads : readLocked env p s = (.ok r, { s with tick := s.tick + 2 }) := by
    simp [readLocked, hcontent, h0, h1, hr]
  have happend : appendActive env (frame kindRecord r.encode) { s with tick := s.tick + 2 } =
      (.ok a.size, _) := appendActive_ready ha hopened h2
  refine ⟨r, ?_⟩
  simp only [copyRecord, hreads, happend]
  rfl

theorem readable_copied {q : Nat} (r : Record) (hqp : q ≠ p) (hother : (s.heap q).segment ≠ a.id) :
    (s.copied a p r).readable q = s.readable q := by
  have hheap : (s.copied a p r).heap q = s.heap q := Function.update_of_ne hqp _ _
  have hfiles : (s.copied a p r).files =
      s.files.insert a.id (s.content a.id ++ frame kindRecord r.encode) := rfl
  rw [Spool.readable, hheap, hfiles, AList.lookup_insert_ne hother, Spool.readable]

/-- The copies of a round that goes through: every entry of the list leaves the segment,
and the segment owes as many. -/
theorem copyEntries_ready (l : List Nat) (hnodup : l.Nodup) (ha : s.active = some a)
    (hopened : a.opened = true) (hid : a.id ≠ id)
    (hmem : ∀ p ∈ l, p ∈ s.pointers ∧ (s.heap p).segment = id ∧ s.readable p = true)
    (hcalm : env.Calm s.tick (3 * l.length)) (h : Owing id n s) (hl : Linked s) :
    ∃ t a', copyEntries env id l s = (.ok (), t) ∧ Owing id (n + l.length) t ∧ Linked t ∧
      t.active = some a' ∧ a'.opened = true ∧ a'.id = a.id ∧ t.aliases = s.aliases ∧
      t.tick = s.tick + 3 * l.length := by
  induction l generalizing s a n with
  | nil => exact ⟨s, a, rfl, h, hl, ha, hopened, rfl, rfl, rfl⟩
  | cons p rest ih =>
    obtain ⟨hp, hseg, hread⟩ := hmem p mem_cons_self
    obtain ⟨hfresh, hnodup⟩ := nodup_cons.mp hnodup
    have hlen : (p :: rest).length = rest.length + 1 := rfl
    obtain ⟨r, hcopy⟩ := copyRecord_ready ha hopened hread
      (fun i hi => hcalm i (by rw [hlen]; omega) : env.Calm s.tick 3)
    have hrest : ∀ q ∈ rest, q ∈ (s.copied a p r).pointers ∧
        ((s.copied a p r).heap q).segment = id ∧ (s.copied a p r).readable q = true := by
      intro q hq
      obtain ⟨hqp, hqseg, hqread⟩ := hmem q (mem_cons_of_mem p hq)
      have hne : q ≠ p := fun h => hfresh (h ▸ hq)
      refine ⟨hqp, ?_, ?_⟩
      · rw [show (s.copied a p r).heap q = s.heap q from Function.update_of_ne hne _ _, hqseg]
      · rw [readable_copied r hne (hqseg ▸ Ne.symm hid), hqread]
    have htick : (s.copied a p r).tick = s.tick + 3 := rfl
    obtain ⟨t, a', hexec, howing, hlinked, ha', hopened', hid', haliases, htick'⟩ :=
      ih hnodup (s := s.copied a p r) rfl hopened hid hrest
        (fun i hi => by
          rw [htick, Nat.add_assoc]
          exact hcalm (3 + i) (by rw [hlen]; omega))
        (h.copied hl r hp hseg hid) (hl.copied ha p r)
    refine ⟨t, a', ?_, ?_, hlinked, ha', hopened', hid', haliases, ?_⟩
    · simp only [copyEntries, hseg, ne_eq, hcopy]
      exact hexec
    · rw [hlen, Nat.add_comm rest.length, ← Nat.add_assoc]
      exact howing
    · omega

/-- Entries of other segments are passed over. -/
theorem copyEntries_filter (env : Env) (id : Nat) (l : List Nat) (hnodup : l.Nodup) (s : Spool) :
    copyEntries env id l s =
      copyEntries env id (l.filter fun p => decide ((s.heap p).segment = id)) s := by
  induction l generalizing s with
  | nil => rfl
  | cons p rest ih =>
    obtain ⟨hfresh, hnodup⟩ := nodup_cons.mp hnodup
    by_cases hseg : (s.heap p).segment = id
    · rw [filter_cons_of_pos (by simpa using hseg), copyEntries, copyEntries,
        if_neg (not_not.mpr hseg), if_neg (not_not.mpr hseg)]
      rcases copyRecord_cases env p s with ⟨a, r, -, -, -, -, heq⟩ | ⟨e, t, heq, -⟩
      · have hsame : rest.filter (fun q => decide (((s.copied a p r).heap q).segment = id)) =
            rest.filter fun q => decide ((s.heap q).segment = id) := by
          refine filter_congr fun q hq => ?_
          have hne : q ≠ p := fun h => hfresh (h ▸ hq)
          rw [show (s.copied a p r).heap q = s.heap q from Function.update_of_ne hne _ _]
        simp only [heq]
        rw [ih hnodup, hsame]
      · simp [heq]
    · rw [filter_cons_of_neg (by simpa using hseg), copyEntries, if_pos hseg]
      exact ih hnodup s

/-- The accounts and the invariants they rest on. -/
structure Balanced (s : Spool) : Prop where
  linked : Linked s
  accounts : Accounts s
  aliases : s.aliases = []

theorem Balanced.quiet (h : Balanced s) (hm : QuietMemory s s') (haliases : s'.aliases = s.aliases) :
    Balanced s' :=
  ⟨h.linked.quiet hm, h.accounts.quiet h.linked hm, haliases.trans h.aliases⟩

theorem Balanced.tick (h : Balanced s) (t : Nat) : Balanced { s with tick := t } :=
  h.quiet (quiet_tick s t).1 rfl

theorem Balanced.broken (h : Balanced s) {framed : Bytes} (hb : Broken env framed s s') :
    Balanced s' :=
  h.quiet hb.memory (by rw [hb.same])

theorem Balanced.removed (h : Balanced s) (g : Nat) : Balanced (s.next.removeSegment g) :=
  ⟨h.linked.removed g, h.accounts.removed g, h.aliases⟩

theorem compactRound_eq (env : Env) (id : Nat) (s : Spool) (hnodup : s.pointers.Nodup) :
    compactRound env id s =
      match copyEntries env id (s.roundOf env id) s.next with
      | (.error e, t) => (.error e, t)
      | (.ok _, t) =>
        match syncActive env t with
        | (.error e, u) => (.error e, u)
        | (.ok _, u) =>
          if (env.fault u.tick).isSome then (.error .io, u.next)
          else (.ok (), u.next.removeSegment id) := by
  have hperm := env.order_perm s.tick s.pointers
  rw [compactRound, copyEntries_filter env id _ (hperm.nodup_iff.mpr hnodup)]
  rfl

/-- A round over a segment without entries changes no account, however it ends. -/
theorem Balanced.emptyRound (h : Balanced s) (hnone : s.roundOf env id = []) :
    Balanced (compactRound env id s).2 ∧ (compactRound env id s).2.activeID = s.activeID := by
  rw [compactRound_eq env id s h.linked.nodup_pointers, hnone]
  simp only [copyEntries]
  have hstate := syncActive_state env s.next
  cases hsync : syncActive env s.next with
  | mk result u =>
    rw [hsync] at hstate
    have hu : Balanced u ∧ u.activeID = s.activeID := by
      rcases hstate with rfl | rfl
      · exact ⟨h.tick _, rfl⟩
      · exact ⟨(h.tick _).tick _, rfl⟩
    cases result with
    | error e => exact hu
    | ok _ =>
      simp only
      split
      · exact ⟨hu.1.tick _, hu.2⟩
      · exact ⟨hu.1.removed id, hu.2⟩

theorem mem_roundOf : p ∈ s.roundOf env id ↔ p ∈ s.pointers ∧ (s.heap p).segment = id := by
  rw [Spool.roundOf, mem_filter, (env.order_perm s.tick s.pointers).mem_iff, decide_eq_true_iff]

theorem readLocked_ready {r : Record} (h : (readLocked env p s).1 = .ok r) :
    s.readable p = true ∧ env.fault s.tick = none ∧ env.fault (s.tick + 1) = none := by
  unfold readLocked at h
  simp only at h
  split at h
  · cases h
  rename_i content hcontent
  split at h
  · cases h
  rename_i hcalm
  rw [not_or, Option.not_isSome_iff_eq_none, Option.not_isSome_iff_eq_none] at hcalm
  refine ⟨?_, hcalm⟩
  rw [Spool.readable, hcontent, Option.any_some, h]
  rfl

/-- **A safe round keeps the accounts.** -/
theorem Balanced.round (h : Balanced s) (hid : s.activeID ≠ some id) (hsafe : s.RoundSafe env id) :
    Balanced (compactRound env id s).2 ∧
      ((compactRound env id s).1.isOk = true → (compactRound env id s).2.activeID = s.activeID) := by
  cases hround : s.roundOf env id with
  | nil => exact ⟨(h.emptyRound hround).1, fun _ => (h.emptyRound hround).2⟩
  | cons p rest =>
    have hp := mem_roundOf.mp (hround ▸ mem_cons_self : p ∈ s.roundOf env id)
    rcases copyRecord_cases env p s.next with ⟨a, r, ha, hopened, hfault, hr, -⟩ | ⟨e, t, heq, hb⟩
    · -- the first entry can be copied, so the round goes through
      obtain ⟨hread, h0, h1⟩ := readLocked_ready hr
      have hfirst : env.Calm (s.tick + 1) 3 := by
        intro i hi
        match i with
        | 0 => exact h0
        | 1 => exact h1
        | 2 => exact hfault
      obtain ⟨hall, hcalm⟩ := hsafe p (by rw [hround]; rfl) hread hfirst
      have hother := s.ne_of_activeID hid ha
      have hnodup : (s.roundOf env id).Nodup :=
        ((env.order_perm s.tick s.pointers).nodup_iff.mpr h.linked.nodup_pointers).filter _
      have hnext := h.tick (s.tick + 1)
      obtain ⟨t, a', hexec, howing, hlinked, ha', hopened', hid', haliases, htick⟩ :=
        copyEntries_ready (s.roundOf env id) hnodup ha hopened hother
          (fun q hq => ⟨(mem_roundOf.mp hq).1, (mem_roundOf.mp hq).2, hall q hq⟩)
          (fun i hi => hcalm i (by omega)) (hnext.accounts.owing id) hnext.linked
      have hsync : env.fault t.tick = none := by
        rw [htick]
        exact hcalm _ (by omega)
      have hremove : env.fault t.next.tick = none := by
        rw [show t.next.tick = t.tick + 1 from rfl, htick]
        exact hcalm (3 * (s.roundOf env id).length + 1) (by omega)
      have hdone : compactRound env id s = (.ok (), t.next.next.removeSegment id) := by
        rw [compactRound_eq env id s h.linked.nodup_pointers, hexec]
        simp [syncActive_ready ha' hopened' hsync, hremove]
      rw [hdone]
      have hlinked' : Linked t.next := hlinked.quiet (quiet_tick t _).1
      refine ⟨⟨hlinked'.removed id, (howing.tick _).removed, haliases.trans h.aliases⟩,
        fun _ => ?_⟩
      show t.active.map _ = s.active.map _
      rw [ha', show s.active = some a from ha, Option.map_some, Option.map_some, hid']
    · -- the first entry cannot be copied, and nothing has moved
      obtain ⟨kind, body, -, hb⟩ := hb
      have hstop : compactRound env id s = (.error e, t) := by
        rw [compactRound_eq env id s h.linked.nodup_pointers, hround, copyEntries,
          if_neg (not_not.mpr (show (s.next.heap p).segment = id from hp.2))]
        simp [heq]
      rw [hstop]
      exact ⟨(h.tick (s.tick + 1)).broken hb, fun hok => by cases hok⟩

/-- The rounds of a compaction, by induction over the segments. -/
theorem Balanced.rounds (ids : List Nat) (h : Balanced s) (hids : ∀ id ∈ ids, s.activeID ≠ some id)
    (hsafe : Spool.CompactsSafely env ids s) : Balanced (compactRounds env ids s).2 := by
  induction ids generalizing s with
  | nil => exact h
  | cons id ids ih =>
    obtain ⟨hround, hrest⟩ := hsafe
    obtain ⟨hb, hactive⟩ := h.round (hids id mem_cons_self) hround
    rw [compactRounds]
    split
    next e t hc =>
      simp only [hc] at hb
      exact hb
    next t hc =>
      simp only [hc] at hb hactive hrest
      refine ih hb (fun g hg => ?_) (hrest rfl)
      rw [hactive rfl]
      exact hids g (mem_cons_of_mem id hg)

theorem Balanced.moved (h : Balanced s) (hm : Moved env c s s') (hcompacts : c.compacts = false)
    (hstarts : c.starts = false) (hnew : ∀ r ∈ c.record, s.Unused r.id) : Balanced s' := by
  cases hm with
  | quiet hm hd => exact h.quiet hm hd.aliases
  | wrote r a ha =>
    have hr := hnew r rfl
    exact ⟨h.linked.wrote ha hr, h.accounts.wrote h.linked hr, h.aliases⟩
  | refused r hb =>
    have hhand : Balanced (s.hand r) := h.quiet (hand_quiet s r) rfl
    exact hhand.broken hb
  | entombed p a ha hp hknown =>
    exact ⟨h.linked.entombed ha p, h.accounts.entombed h.linked hp hknown, h.aliases⟩
  | unburied p hb => exact h.broken hb
  | settled g hg => exact h.removed g
  | compacted hpath => cases hcompacts
  | started => cases hstarts

theorem Balanced.compactOlder (h : Balanced s)
    (hsafe : Spool.CompactsSafely env s.olderSegments s) :
    Balanced (RelaySpool.compactOlder env s).2 := by
  refine h.rounds _ (fun id hid => ?_) hsafe
  rw [Spool.olderSegments, mem_insertionSort, mem_filter] at hid
  exact of_decide_eq_true hid.2

theorem balanced_empty (hindex : s.index = ∅) (hbyHost : s.byHost = ∅) (hsegments : s.segments = ∅)
    (hlive : s.live = 0) (hptr : s.nextPtr = 0) (hactive : s.active = none)
    (haliases : s.aliases = []) : Balanced s := by
  have hpointers : s.pointers = [] := by rw [Spool.pointers, hindex]; rfl
  refine ⟨⟨by simp [hindex], by simp [hindex], by simp [hptr], by simp [hpointers],
    by simp [hactive], by simp [hactive]⟩, ⟨?_, fun host => ?_, by simp [hsegments]⟩, haliases⟩
  · rw [hlive, Spool.fill, hpointers]
    rfl
  · rw [Spool.hostList, hbyHost, hpointers]
    exact ⟨nodup_nil, fun p => iff_of_false (by simp) (by simp)⟩

theorem Opened.accounts {T : List UUID} {seen : Seen} (h : Opened env s s' T seen)
    (hclean : s.CleanDirectory) : Accounts s' := by
  have hfile : ∀ x ∈ seen, x.1 ∈ s.files.keys ∧ x.2.record ∈ s.recordsIn x.1 := by
    intro x hx
    have hput := h.mem x hx
    exact ⟨mem_files_of_log (ne_nil_of_mem hput), mem_filterMap.mpr ⟨_, hput, rfl⟩⟩
  have hone : seen.OneHost := fun x hx y hy =>
    hclean.2 x.1 (hfile x hx).1 y.1 (hfile y hy).1 _ (hfile x hx).2 _ (hfile y hy).2
  have hsingle : seen.Single := by
    refine h.single fun g => ?_
    by_cases hg : g ∈ s.files
    · exact hclean.1 g hg
    rw [log_of_notMem hg]
    exact nodup_nil
  refine ⟨h.indexed.live, h.indexed.hosted hone, fun g st hst => ?_⟩
  have hlow := h.indexed.low g st hst
  have hhigh := h.indexed.high hsingle g st hst
  omega

theorem Balanced.openSpool (h : Balanced s) (hclean : s.CleanDirectory) :
    Balanced (RelaySpool.openSpool env s).2 := by
  rcases (openSpool_spec env h.aliases).1 with ⟨T, seen, hopened, hnewest⟩ | ⟨t, hframe, heq⟩
  · exact ⟨hopened.linked hnewest, hopened.accounts hclean, hopened.aliases.trans h.aliases⟩
  · rw [heq]
    exact balanced_empty rfl rfl rfl rfl rfl rfl (hframe.aliases.trans h.aliases)

/-- **Every command that meets the condition keeps the accounts**, whatever fails. -/
theorem Balanced.step (h : Balanced s) (hc : KeepsAccounts env c s) :
    Balanced (step env c s).2 := by
  by_cases hcompacts : c.compacts = true
  · cases c <;> first | exact h.compactOlder (hc.2.1 rfl) | cases hcompacts
  by_cases hstarts : c.starts = true
  · cases c <;> first | exact h.openSpool (hc.2.2 rfl) | cases hstarts
  exact h.moved (step_moved env c s) (Bool.eq_false_iff.mpr hcompacts)
    (Bool.eq_false_iff.mpr hstarts) hc.1

/-- **The accounts agree with the index** in every state of a run that begins over an
arbitrary directory, whatever file operations fail in it. -/
theorem accounts_agree (env : Env) (o : Options) (files : AList fun _ : Nat => Bytes)
    (ops : List Op)
    (hrun : (runOps env ops).Along (step env) (KeepsAccounts env) (Spool.unopened o files [])) :
    Accounts (after env (runOps env ops) (Spool.unopened o files [])) := by
  have hstart : Balanced (Spool.unopened o files []) := balanced_empty rfl rfl rfl rfl rfl rfl rfl
  have hend : Balanced (after env (runOps env ops) (Spool.unopened o files [])) := by
    refine Prog.exec_inv (I := Balanced) (fun c s hc hs => ?_) hrun hstart
    exact hs.step hc
  exact hend.accounts

/-- A compaction that empties the first segment and fails on the second before it has
moved anything out of it. -/
theorem accounts_agree_interrupted :
    Accounts (after (failing 30 0) (runOps (failing 30 0) [.open, .append (smallRecord 1),
      .append (smallRecord 2), .append (smallRecord 3), .delete (uid 1)])
      (Spool.unopened crowdedOptions ∅ [])) :=
  accounts_agree (failing 30 0) crowdedOptions ∅ _ (by decide +kernel)

/-- A segment file that holds one record twice. -/
def recordTwice : AList fun _ : Nat => Bytes :=
  AList.singleton 1 (frame kindRecord (smallRecord 1).encode ++
    frame kindRecord (smallRecord 1).encode)

theorem not_accounts_of_counter {z : Int}
    (hlive : (s.segments.lookup g).map SegmentState.live = some z) (hstanding : s.standing g = n)
    (hne : z ≠ n) : ¬Accounts s := by
  intro h
  obtain ⟨st, hst, rfl⟩ := Option.map_eq_some_iff.mp hlive
  exact hne (hstanding ▸ h.segment g st hst)

/-- **A counter nothing settles.**  When the removal of a segment fails behind the
copies of its records, the segment is left with the count of records that stand elsewhere; and a
start over a segment that holds a record twice counts it twice. -/
theorem segment_counter_too_high :
    ¬Accounts (after (failing 27 0) (runOps (failing 27 0) [.open, .append (smallRecord 1),
      .append (smallRecord 2), .append (smallRecord 3), .delete (uid 1)])
      (Spool.unopened crowdedOptions ∅ [])) ∧
    ¬Accounts (openSpool calm (Spool.unopened smallOptions recordTwice [])).2 :=
  ⟨not_accounts_of_counter (g := 1) (n := 0) (z := 1) (by decide +kernel) (by decide +kernel)
      (by decide),
    not_accounts_of_counter (g := 1) (n := 1) (z := 2) (by decide +kernel) (by decide +kernel)
      (by decide)⟩

end Flotestro.RelaySpool
