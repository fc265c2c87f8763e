import Flotestro.RelaySpool.Analysis.Opening

/-!
# One command

`Moved` lists what the spool can be behind a command, and `step_moved` says that every command
leaves one of these; each invariant of a run is a case analysis over it.  The first is
`Sound`, which the others build on.
-/

set_option autoImplicit false

namespace Flotestro.RelaySpool

open Library

variable {env : Env} {s s' : Spool} {c : Cmd}

/-- What a command makes of the spool. -/
inductive Moved (env : Env) : Cmd → Spool → Spool → Prop where
  | quiet {c : Cmd} {s s' : Spool} (memory : QuietMemory s s') (disk : QuietDisk s s') :
      Moved env c s s'
  | wrote {s : Spool} (r : Record) (a : Segment) (active : s.active = some a) :
      Moved env (.writeRecord r) s (s.wrote env a r)
  | refused {s s' : Spool} (r : Record)
      (broken : Broken env (frame kindRecord r.encode) (s.hand r) s') :
      Moved env (.writeRecord r) s s'
  | entombed {s : Spool} (p : Nat) (a : Segment) (active : s.active = some a) (lt : p < s.nextPtr)
      (known : s.index.lookup (s.heap p).id ≠ none) : Moved env (.entomb p) s (s.entombed a p)
  | unburied {s s' : Spool} (p : Nat)
      (broken : Broken env (frame kindTombstone (s.heap p).id.toList) s s') :
      Moved env (.entomb p) s s'
  | settled {s : Spool} (g : Nat) (settles : s.Settles g) :
      Moved env (.settle g) s (s.next.removeSegment g)
  | compacted {s s' : Spool} (path : CompactingTo env s s') : Moved env .compactOlder s s'
  | started (s : Spool) : Moved env .openSpool s (openSpool env s).2

/-- **What one command can do.** -/
theorem step_moved (env : Env) (c : Cmd) (s : Spool) : Moved env c s (step env c s).2 := by
  cases c with
  | writeRecord r =>
    rw [step]
    rcases writeRecord_cases env r s with ⟨a, ha, -, -, heq⟩ | ⟨s', heq, hb⟩ <;> rw [heq]
    · exact .wrote r a ha
    · exact .refused r hb
  | entomb p =>
    refine iteInduction (motive := fun r => Moved env _ s (Prod.snd r)) (fun hg => ?_) fun _ => .quiet (.refl s) (.refl s)
    rcases entomb_cases env p s with ⟨a, ha, -, -, heq⟩ | ⟨s', heq, hb⟩ <;> rw [heq]
    · exact .entombed p a ha hg.1 hg.2
    · exact .unburied p hb
  | settle g =>
    rw [step]
    rcases settle_cases env g s with ⟨st, hst, hlive, hid, heq⟩ | heq | heq <;> rw [heq]
    · exact .settled g ⟨hid, st, hst, hlive⟩
    · exact .quiet (.refl s) (.refl s)
    · exact .quiet (quiet_tick s _).1 (quiet_tick s _).2
  | compactOlder => exact .compacted (compactOlder_path env s)
  | openSpool => exact .started s
  | _ => exact .quiet (step_quiet env _ s rfl).1 (step_quiet env _ s rfl).2

/-- The index, the directory and the log of a running spool agree. -/
structure Sound (s : Spool) : Prop where
  linked : Linked s
  tidy : Tidy s
  known : Known s

theorem Sound.quiet (h : Sound s) (hm : QuietMemory s s') (hd : QuietDisk s s') : Sound s' :=
  ⟨h.linked.quiet hm, h.tidy.quiet hm hd, h.known.quiet hm hd.log fun _ hr => hd.history ▸ hr⟩

theorem Sound.hand (h : Sound s) (r : Record) : Sound (s.hand r) :=
  ⟨h.linked.quiet (hand_quiet s r),
    { h.tidy with },
    h.known.quiet (hand_quiet s r) rfl fun _ hr => List.mem_append_left _ hr⟩

theorem Sound.broken (h : Sound s) (hw : s.Whole) {kind : UInt8} {body : Bytes}
    (hmax : body.length ≤ maxRecordBytes) (hb : Broken env (frame kind body) s s') : Sound s' := by
  refine ⟨h.linked.quiet hb.memory, h.tidy.broken hw hmax hb,
    h.known.quiet hb.memory (h.tidy.broken_log hw hmax hb) fun r hr => ?_⟩
  rw [hb.same]
  exact hr

theorem Sound.removed (h : Sound s) {g : Nat} (hg : s.activeID ≠ some g) :
    Sound (s.next.removeSegment g) :=
  ⟨h.linked.removed g, h.tidy.removed hg, h.known.removed g⟩

theorem Sound.compacting (hstep : Compacting env s s') (h : Sound s ∧ s.Whole) :
    Sound s' ∧ s'.Whole := by
  obtain ⟨hs, hw⟩ := h
  cases hstep with
  | moved t => exact ⟨hs.quiet (quiet_tick s t).1 (quiet_tick s t).2, hw⟩
  | copied a p r ha hp hother hr =>
    obtain ⟨ht, hw', -⟩ := hs.tidy.copied hw ha hr
    exact ⟨⟨hs.linked.copied ha p r, ht, hs.known.copied hs.tidy hw hs.linked ha hp hother hr⟩, hw'⟩
  | emptied g hempty hid hold => exact ⟨hs.removed hid, hw.removed hid⟩

theorem Sound.failed (h : Sound s) (hw : s.Whole) (hf : Failed env s s') : Sound s' := by
  obtain ⟨kind, body, hmax, hb⟩ := hf
  exact h.broken hw hmax hb

theorem length_tombstone (id : UUID) : id.toList.length ≤ maxRecordBytes := by
  rw [List.Vector.toList_length]
  decide

theorem length_encode_le {r : Record} (hr : r.bodySize ≤ maxRecordBytes) :
    r.encode.length ≤ maxRecordBytes :=
  r.length_encode.le.trans hr

/-- **Every command keeps the spool sound**, whatever fails, as long as records are new
and no frame is written behind a torn one. -/
theorem Sound.moved (hopen : env.Opens) (hm : Moved env c s s') (hnew : NewRecords c s)
    (hwhole : WholeWrites c s) (h : Sound s) : Sound s' := by
  cases hm with
  | quiet hm hd => exact h.quiet hm hd
  | wrote r a ha =>
    obtain ⟨hid, hmax⟩ := hnew r rfl
    exact ⟨h.linked.wrote ha (h.known.unused hid), (h.tidy.wrote (hwhole rfl) ha hmax).1,
      h.known.wrote h.tidy (hwhole rfl) h.linked ha hmax hid⟩
  | refused r hb =>
    exact (h.hand r).broken (hwhole rfl) (length_encode_le (hnew r rfl).2) hb
  | entombed p a ha hp _ =>
    exact ⟨h.linked.entombed ha p, (h.tidy.entombed (hwhole rfl) ha p).1,
      h.known.entombed h.tidy (hwhole rfl) ha hp⟩
  | unburied p hb => exact h.broken (hwhole rfl) (length_tombstone _) hb
  | settled g hg => exact h.removed hg.1
  | compacted hpath =>
    exact hpath.inv (fun _ _ => Sound.compacting) (fun _ ht => ht.1)
      (fun _ _ hf ht => ht.1.failed ht.2 hf) ⟨h, hwhole rfl⟩
  | started =>
    obtain ⟨T, seen, hopened, hnewest⟩ := (openSpool_spec env h.tidy.aliases).2 hopen
    exact ⟨hopened.linked hnewest, hopened.tidy hnewest h.tidy.aliases, hopened.known hopen h.known⟩

theorem Spool.Whole.moved (hopen : env.Opens) (hshort : env.NoShortWrite) (hm : Moved env c s s')
    (hnew : NewRecords c s) (h : Sound s) (hw : s.Whole) : s'.Whole := by
  cases hm with
  | quiet hm hd => exact h.tidy.quiet_whole hm hd hw
  | wrote r a ha => exact (h.tidy.wrote hw ha (hnew r rfl).2).2.1
  | refused r hb => exact Spool.Whole.broken (s := s.hand r) hw hshort hb
  | entombed p a ha _ _ => exact (h.tidy.entombed hw ha p).2.1
  | unburied p hb => exact hw.broken hshort hb
  | settled g hg => exact hw.removed hg.1
  | compacted hpath =>
    refine hpath.inv (fun _ _ => Sound.compacting) (fun _ ht => ht.2) (fun t t' hf ht => ?_) ⟨h, hw⟩
    obtain ⟨kind, body, -, hb⟩ := hf
    exact ht.2.broken hshort hb
  | started =>
    obtain ⟨T, seen, -, hnewest⟩ := (openSpool_spec env h.tidy.aliases).2 hopen
    exact hnewest.whole

theorem sound_fresh (hopen : env.Opens) (o : Options) :
    Sound (fresh env o) ∧ (fresh env o).Whole := by
  obtain ⟨T, seen, h, hnewest⟩ := (openSpool_spec env (s := Spool.unopened o ∅ []) rfl).2 hopen
  have hlog : ∀ g, (Spool.unopened o ∅ []).log g = [] := fun g => rfl
  have hknown : Known (Spool.unopened o ∅ []) := by
    refine ⟨fun p hp => absurd hp (Nat.not_lt_zero p), fun g k v hk => ?_, fun g k hk => ?_,
      fun g k hk => ?_, fun g k v p hk => ?_, fun g => ?_⟩
    all_goals first
      | rw [hlog] at hk
        cases hk
      | rw [hlog]
        exact List.nodup_nil
  exact ⟨⟨h.linked hnewest, h.tidy hnewest rfl, h.known hopen hknown⟩, hnewest.whole⟩

theorem along_close {P : Cmd → Spool → Prop} (hP : ∀ c s, c.quiet = true → P c s) (s : Spool) :
    close.Along (step env) P s := by
  refine Prog.along_issue_bind (hP _ _ rfl) ?_
  split
  · exact Prog.along_pure _ _
  · exact Prog.along_issue_bind (hP _ _ rfl)
      (Prog.along_issue_bind (hP _ _ rfl) (Prog.along_pure _ _))

theorem Cmd.quiet_free {c : Cmd} (h : c.quiet = true) (s : Spool) :
    NewRecords c s ∧ EncodableRecords c s ∧ WholeWrites c s ∧ KeepsGuards c s := by
  have hfree : c.record = none ∧ c.writes = false ∧ c.settled = none ∧ c.starts = false := by
    cases c <;> first | exact ⟨rfl, rfl, rfl, rfl⟩ | cases h
  obtain ⟨h1, h2, h3, h4⟩ := hfree
  simp [NewRecords, EncodableRecords, WholeWrites, KeepsGuards, h1, h2, h3, h4]

/-- The index, the log and the records handed over are as they were. -/
structure Unmoved (s s' : Spool) : Prop where
  index : s'.index = s.index
  heap : ∀ p, (s'.heap p).kept = (s.heap p).kept
  log : s'.log = s.log
  history : s'.history = s.history
  aliases : s'.aliases = s.aliases
  content : ∀ g, s'.content g = s.content g

theorem Unmoved.of_quiet {α : Type} {p : SpoolM α}
    (hp : p.Along (step env) (fun c _ => c.quiet = true) s) : Unmoved s (after env p s) := by
  refine Prog.exec_rel (fun _ => ⟨rfl, fun _ => rfl, rfl, rfl, rfl, fun _ => rfl⟩)
    (fun a b c hab hbc => ?_) (fun c t hc => ?_) hp
  · exact ⟨hbc.index.trans hab.index, fun p => (hbc.heap p).trans (hab.heap p),
      hbc.log.trans hab.log, hbc.history.trans hab.history, hbc.aliases.trans hab.aliases,
      fun g => (hbc.content g).trans (hab.content g)⟩
  · obtain ⟨hm, hd⟩ := step_quiet env c t hc
    exact ⟨hm.index, hm.heap, hd.log, hd.history, hd.aliases, hd.content⟩

theorem close_unmoved (env : Env) (s : Spool) : Unmoved s (after env close s) :=
  .of_quiet (along_close (fun _ _ h => h) s)

end Flotestro.RelaySpool
