import Flotestro.RelaySpool.Analysis.Programs

/-!
# A roll that fails

`rollLocked` closes the active segment before it creates the next one.  When the creation
fails the closed segment stays the active one (`Spool.Shut`): every later write and every later
roll is refused, until the process starts again.  Only a spool without an active segment comes
through (`Spool.Ready`), since a roll has nothing to close there.

Both are followed along arbitrary programs.  What every command other than a roll leaves in
place is `Onward`; that the name of the next segment is free is `Named`.
-/

set_option autoImplicit false

namespace Flotestro.RelaySpool

open Library

variable {env : Env} {s s' : Spool} {c : Cmd}

/-! ## What a command leaves in place -/

def Spool.handle (s : Spool) : Option (Nat × Bool) := s.active.map fun a => (a.id, a.opened)

/-- What every command other than a roll leaves in place while the process works. -/
structure Onward (s s' : Spool) : Prop where
  tick : s.tick ≤ s'.tick
  options : s'.options = s.options
  aliases : s'.aliases = s.aliases
  closed : s'.closed = s.closed
  nextID : s'.nextID = s.nextID
  handle : s'.handle = s.handle
  files : ∀ g ∈ s'.files, g ∈ s.files ∨ ∃ opened, s.handle = some (g, opened)

theorem Onward.refl (s : Spool) : Onward s s :=
  ⟨le_refl _, rfl, rfl, rfl, rfl, rfl, fun _ h => .inl h⟩

theorem Onward.trans {t : Spool} (h : Onward s t) (h' : Onward t s') : Onward s s' where
  tick := h.tick.trans h'.tick
  options := h'.options.trans h.options
  aliases := h'.aliases.trans h.aliases
  closed := h'.closed.trans h.closed
  nextID := h'.nextID.trans h.nextID
  handle := h'.handle.trans h.handle
  files g hg := by
    rcases h'.files g hg with hg | hg
    · exact h.files g hg
    · exact .inr (h.handle ▸ hg)

theorem onward_tick (s : Spool) {t : Nat} (ht : s.tick ≤ t) : Onward s { s with tick := t } :=
  { Onward.refl s with tick := ht }

theorem onward_active {a a' : Segment} {content : Bytes} (ha : s.active = some a)
    (ha' : s'.active = some a') (hid : a'.id = a.id) (hopened : a'.opened = a.opened)
    (htick : s.tick ≤ s'.tick) (hoptions : s'.options = s.options)
    (haliases : s'.aliases = s.aliases) (hclosed : s'.closed = s.closed)
    (hnextID : s'.nextID = s.nextID) (hfiles : s'.files = s.files.insert a.id content) :
    Onward s s' := by
  have hhandle : s.handle = some (a.id, a.opened) := by rw [Spool.handle, ha]; rfl
  refine ⟨htick, hoptions, haliases, hclosed, hnextID, ?_, fun g hg => ?_⟩
  · rw [hhandle, Spool.handle, ha', Option.map_some, hid, hopened]
  · rw [hfiles, AList.mem_insert] at hg
    rcases hg with rfl | hg
    · exact .inr ⟨a.opened, hhandle⟩
    · exact .inl hg

theorem Broken.onward {framed : Bytes} (h : Broken env framed s s') : Onward s s' := by
  have hlater := h.later
  rcases h.files with hfiles | ⟨a, n, ha, -, hfiles⟩ <;> rw [h.same]
  · exact ⟨hlater, rfl, rfl, rfl, rfl, rfl, fun g hg => .inl (hfiles ▸ hg)⟩
  · exact onward_active ha ha rfl rfl hlater rfl rfl rfl rfl hfiles

theorem Compacting.onward (h : Compacting env s s') : Onward s s' := by
  cases h with
  | moved t ht => exact onward_tick s ht
  | copied a p r ha _ _ _ =>
    exact onward_active ha rfl rfl rfl (Nat.le_add_right s.tick 3) rfl rfl rfl rfl rfl
  | emptied g _ _ _ =>
    refine ⟨Nat.le_succ _, rfl, rfl, rfl, rfl, rfl, fun g' hg' => .inl ?_⟩
    exact (AList.mem_erase.mp hg').2

theorem CompactingTo.onward (h : CompactingTo env s s') : Onward s s' :=
  h.inv (fun _ _ hstep ht => ht.trans hstep.onward) (fun _ ht => ht)
    (fun _ _ ⟨_, _, _, hb⟩ ht => ht.trans hb.onward) (.refl s)

/-- **The frame of a command**: a roll apart, nothing the process does opens or closes
the active file. -/
theorem step_onward (hroll : c ≠ .roll) (hends : c.ends = false) : Onward s (step env c s).2 := by
  have hnext : ∀ n, Onward s { s with tick := s.tick + n } :=
    fun n => onward_tick s (Nat.le_add_right s.tick n)
  cases c with
  | writeRecord r =>
    rw [step]
    rcases writeRecord_cases env r s with ⟨a, ha, -, -, heq⟩ | ⟨t, heq, hb⟩ <;> rw [heq]
    · exact onward_active ha rfl rfl rfl (Nat.le_succ s.tick) rfl rfl rfl rfl rfl
    · have hhand : Onward s (s.hand r) := { Onward.refl s with }
      exact hhand.trans hb.onward
  | entomb p =>
    refine iteInduction (motive := fun r => Onward s (Prod.snd r)) (fun _ => ?_) fun _ => .refl s
    rcases entomb_cases env p s with ⟨a, ha, -, -, heq⟩ | ⟨t, heq, hb⟩ <;> rw [heq]
    · exact onward_active ha rfl rfl rfl (Nat.le_succ s.tick) rfl rfl rfl rfl rfl
    · exact hb.onward
  | settle g =>
    rw [step]
    rcases settle_cases env g s with ⟨st, -, -, -, heq⟩ | heq | heq <;> rw [heq]
    · refine ⟨Nat.le_succ _, rfl, rfl, rfl, rfl, rfl, fun g' hg' => .inl ?_⟩
      exact (AList.mem_erase.mp hg').2
    · exact .refl s
    · exact hnext 1
  | compactOlder => exact (compactOlder_path env s).onward
  | sync =>
    rw [step]
    rcases syncActive_state env s with heq | heq <;> rw [heq]
    · exact .refl s
    · exact hnext 1
  | note n =>
    cases n with
    | closed => cases hends
    | _ => exact { Onward.refl s with }
  | get => exact .refl s
  | sent p now | unsent p => exact { Onward.refl s with }
  | roll => exact absurd rfl hroll
  | close | openSpool => cases hends
  | read p => exact hnext 2
  | freeBytes | now | iterate l | newID => exact hnext 1

/-- The active file is closed. -/
def Spool.Shut (s : Spool) : Prop := ∃ g, s.handle = some (g, false)

theorem shut_iff : s.Shut ↔ ∃ a, s.active = some a ∧ a.opened = false := by
  simp [Spool.Shut, Spool.handle]

theorem not_shut_iff {a : Segment} (ha : s.active = some a) : ¬s.Shut ↔ a.opened = true := by
  simp [shut_iff, ha]

/-- A roll has to close the active file first, so it never gets past a closed one. -/
theorem rollLocked_shut (env : Env) (h : s.Shut) : rollLocked env s = (.error .io, s) := by
  obtain ⟨a, ha, hopened⟩ := shut_iff.mp h
  simp [rollLocked, closeActive, ha, hopened]

theorem closeActive_frame (env : Env) (s : Spool) :
    s.tick ≤ (closeActive env s).2.tick ∧ (closeActive env s).2.closed = s.closed := by
  unfold closeActive
  split
  · exact ⟨le_refl _, rfl⟩
  split
  · exact ⟨Nat.le_add_right _ _, rfl⟩
  · exact ⟨le_refl _, rfl⟩

theorem createSegment_frame (env : Env) (s : Spool) :
    s.tick ≤ (createSegment env s).2.tick ∧ (createSegment env s).2.closed = s.closed := by
  unfold createSegment
  repeat' split
  · exact ⟨Nat.le_succ _, rfl⟩
  · exact ⟨Nat.le_add_right _ _, rfl⟩
  · exact ⟨Nat.le_add_right _ _, rfl⟩

theorem rollLocked_frame (env : Env) (s : Spool) :
    s.tick ≤ (rollLocked env s).2.tick ∧ (rollLocked env s).2.closed = s.closed := by
  obtain ⟨htick, hclosed⟩ := closeActive_frame env s
  unfold rollLocked
  split
  next e t heq =>
    rw [heq] at htick hclosed
    exact ⟨htick, hclosed⟩
  next t heq =>
    rw [heq] at htick hclosed
    obtain ⟨htick', hclosed'⟩ := createSegment_frame env { t with nextID := t.nextID + 1 }
    exact ⟨htick.trans htick', hclosed'.trans hclosed⟩

/-- On a disk that works a roll goes through, when the active file is not closed yet
and the next name is free. -/
theorem rollLocked_ready (hshut : ¬s.Shut) (hfiles : ∀ g ∈ s.files, g ≤ s.nextID)
    (hcalm : ∀ n, s.tick ≤ n → env.fault n = none) :
    (rollLocked env s).1 = .ok () ∧ ∃ a, (rollLocked env s).2.active = some a ∧
      a.opened = true := by
  have hfresh : s.nextID + 1 ∉ s.files := fun h => absurd (hfiles _ h) (by omega)
  have hcreate : ∀ t : Spool, s.tick ≤ t.tick → t.nextID = s.nextID → t.files = s.files →
      (createSegment env { t with nextID := t.nextID + 1 }).1 = .ok () ∧
        ∃ a, (createSegment env { t with nextID := t.nextID + 1 }).2.active = some a ∧
          a.opened = true := by
    intro t htick hnext hsame
    have h0 : env.fault t.tick = none := hcalm _ htick
    have h1 : env.fault (t.tick + 1) = none := hcalm _ (by omega)
    simp [createSegment, hnext, hsame, hfresh, h0, h1]
  unfold rollLocked closeActive
  cases ha : s.active with
  | none => exact hcreate s (le_refl _) rfl rfl
  | some a =>
    have hopened : a.opened = true := (not_shut_iff ha).mp hshut
    have h0 : env.fault s.tick = none := hcalm _ (le_refl _)
    have h1 : env.fault (s.tick + 1) = none := hcalm _ (by omega)
    simp only [hopened, h0, h1, if_true]
    exact hcreate { s with tick := s.tick + 2, active := some { a with opened := false } }
      (Nat.le_add_right _ _) rfl rfl

/-! ## The name of the next segment -/

/-- No file of an open spool bears a number beyond the last one handed out. -/
structure Named (s : Spool) : Prop where
  aliases : s.aliases = []
  files : s.closed = false → ∀ g ∈ s.files, g ≤ s.nextID
  active : s.closed = false → ∀ a, s.active = some a → a.id ≤ s.nextID

theorem Named.onward (h : Named s) (hon : Onward s s') : Named s' := by
  have hle : s.closed = false → ∀ g opened, s.handle = some (g, opened) → g ≤ s.nextID := by
    intro hclosed g opened hg
    obtain ⟨a, ha, heq⟩ := Option.map_eq_some_iff.mp hg
    have hid : a.id = g := congrArg Prod.fst heq
    exact hid ▸ h.active hclosed a ha
  refine ⟨hon.aliases.trans h.aliases, fun hclosed g hg => ?_, fun hclosed a ha => ?_⟩
  · rw [hon.closed] at hclosed
    rw [hon.nextID]
    rcases hon.files g hg with hg | ⟨opened, hg⟩
    · exact h.files hclosed g hg
    · exact hle hclosed g opened hg
  · rw [hon.closed] at hclosed
    rw [hon.nextID]
    refine hle hclosed a.id a.opened ?_
    rw [← hon.handle, Spool.handle, ha]
    rfl

theorem Named.quiet (h : Named s) (hm : QuietMemory s s') (hd : QuietDisk s s')
    (hclosed : s'.closed = s.closed) : Named s' := by
  refine ⟨hd.aliases.trans h.aliases, fun hc g hg => ?_, fun hc a ha => ?_⟩
  · rcases hd.files_new g hg with hg | ⟨-, rfl⟩
    · exact (h.files (hclosed ▸ hc) g hg).trans hm.nextID
    · exact le_refl _
  · rcases hm.active a ha with ⟨a₀, ha₀, hid, -⟩ | ⟨-, hid, -⟩
    · rw [hid]
      exact (h.active (hclosed ▸ hc) a₀ ha₀).trans hm.nextID
    · exact hid.le

theorem named_openSpool (env : Env) (haliases : s.aliases = []) : Named (openSpool env s).2 := by
  rcases (openSpool_spec env haliases).1 with ⟨T, seen, hopened, hnewest⟩ | ⟨t, hframe, heq⟩
  · have htidy := hopened.tidy hnewest haliases
    exact ⟨htidy.aliases, fun _ => htidy.files_le,
      fun _ a ha => htidy.files_le _ (htidy.active_mem a ha)⟩
  · rw [heq]
    exact ⟨hframe.aliases.trans haliases, nofun, fun h => by cases h⟩

/-- Every command keeps the next name free, whatever fails. -/
theorem Named.step (h : Named s) : Named (step env c s).2 := by
  by_cases hroll : c = .roll
  · subst hroll
    obtain ⟨hm, hd⟩ := rollLocked_quiet env s
    exact h.quiet hm hd (rollLocked_frame env s).2
  by_cases hends : c.ends = true
  · cases c with
    | close =>
      obtain ⟨hm, hd⟩ := (closeActive_quiet env s).1
      exact h.quiet hm hd (closeActive_frame env s).2
    | note n =>
      cases n with
      | closed => exact ⟨h.aliases, nofun, fun h => by cases h⟩
      | _ => cases hends
    | openSpool => exact named_openSpool env h.aliases
    | _ => cases hends
  · exact h.onward (step_onward hroll (Bool.eq_false_iff.mpr hends))

theorem Named.run {α : Type} (h : Named s) (p : SpoolM α) : Named (after env p s) := by
  refine Prog.exec_inv (fun c t _ ht => ?_)
    (Prog.along_of_forall (fun _ _ => trivial) p s) h
  exact ht.step

/-! ## Programs behind a failed roll -/

theorem closed_run {α : Type} {p : SpoolM α}
    (hp : p.Along (step env) (fun c _ => c.ends = false) s) :
    (after env p s).closed = s.closed := by
  refine Prog.exec_rel (r := fun a b : Spool => b.closed = a.closed) (fun _ => rfl)
    (fun _ _ _ hab hbc => hbc.trans hab) (fun c t hc => ?_) hp
  by_cases hroll : c = .roll
  · subst hroll
    exact (rollLocked_frame env t).2
  · exact (step_onward hroll hc).closed

theorem Spool.Shut.step (h : s.Shut) (hends : c.ends = false) : (step env c s).2.Shut := by
  by_cases hroll : c = .roll
  · subst hroll
    rw [RelaySpool.step, rollLocked_shut env h]
    exact h
  · rw [Spool.Shut, (step_onward hroll hends).handle]
    exact h

theorem Spool.Shut.run {α : Type} {p : SpoolM α} (h : s.Shut)
    (hp : p.Along (RelaySpool.step env) (fun c _ => c.ends = false) s) : (after env p s).Shut := by
  refine Prog.exec_inv (fun c t hc ht => ?_) hp h
  exact ht.step hc

/-- The spool is open, its active file too if it has one, the next name is free, and
the disk works from here on. -/
structure Working (env : Env) (s : Spool) : Prop where
  named : Named s
  closed : s.closed = false
  handle : ¬s.Shut
  calm : ∀ n, s.tick ≤ n → env.fault n = none

theorem Working.step (h : Working env s) (hends : c.ends = false) :
    Working env (step env c s).2 := by
  by_cases hroll : c = .roll
  · subst hroll
    obtain ⟨htick, hclosed⟩ := rollLocked_frame env s
    obtain ⟨-, a, ha, hopened⟩ := rollLocked_ready h.handle (h.named.files h.closed) h.calm
    exact ⟨h.named.step, hclosed.trans h.closed, (not_shut_iff ha).mpr hopened,
      fun n hn => h.calm n (htick.trans hn)⟩
  · have hon : Onward s (RelaySpool.step env c s).2 := step_onward hroll hends
    refine ⟨h.named.step, hon.closed.trans h.closed, fun hshut => h.handle ?_,
      fun n hn => h.calm n (hon.tick.trans hn)⟩
    rw [Spool.Shut, hon.handle] at hshut
    exact hshut

theorem Working.run {α : Type} {p : SpoolM α} (h : Working env s)
    (hp : p.Along (RelaySpool.step env) (fun c _ => c.ends = false) s) :
    Working env (after env p s) := by
  refine Prog.exec_inv (fun c t hc ht => ?_) hp h
  exact ht.step hc

theorem Working.ensureActive (h : Working env s) :
    ∃ t a, RelaySpool.ensureActive.exec (RelaySpool.step env) s = (.ok (), t) ∧ t.active = some a ∧
      a.opened = true ∧ Working env t := by
  rw [exec_ensureActive]
  split
  · obtain ⟨hok, a, ha, hopened⟩ := rollLocked_ready h.handle (h.named.files h.closed) h.calm
    exact ⟨_, a, Prod.ext hok rfl, ha, hopened, h.step (c := .roll) rfl⟩
  rename_i hnot
  push Not at hnot
  obtain ⟨a, ha, -⟩ := hnot
  exact ⟨s, a, rfl, ha, (not_shut_iff ha).mp h.handle, h⟩

theorem writeRecord_ready {a : Segment} {r : Record} (ha : s.active = some a)
    (hopened : a.opened = true) (hfault : env.fault s.tick = none) :
    writeRecord env r s = (.ok (), s.wrote env a r) := by
  have happend : appendActive env (frame kindRecord r.encode) (s.hand r) =
      (.ok a.size, (s.hand r).next.extendActive a (frame kindRecord r.encode)) :=
    appendActive_ready ha hopened hfault
  rw [Spool.hand] at happend
  rw [writeRecord]
  simp only [happend]
  rfl

theorem Working.keepRecord (h : Working env s) (r : Record) :
    answer env (RelaySpool.keepRecord r) s = none := by
  obtain ⟨t, a, hens, ha, hopened, ht⟩ := h.ensureActive
  have hwrite : writeRecord env r t = (.ok (), t.wrote env a r) :=
    writeRecord_ready ha hopened (ht.calm _ (le_refl _))
  have hsync : syncActive env (t.wrote env a r) = (.ok (), (t.wrote env a r).next) :=
    syncActive_ready rfl hopened (ht.calm _ (Nat.le_succ _))
  rw [answer, exec_keepRecord, exec_writeLocked, hens]
  simp only [hwrite]
  unfold flushRecord
  split
  · rw [Prog.exec_bind, show (issue .sync).exec (RelaySpool.step env) (t.wrote env a r) =
      syncActive env (t.wrote env a r) from rfl, hsync]
    rfl
  · rfl

/-- What a deletion does never makes the spool fuller. -/
theorem live_step_le (hc : c.deletes = true) : (step env c s).2.live ≤ s.live := by
  have hm := step_moved env c s
  generalize (step env c s).2 = t at hm
  cases hm with
  | quiet hm _ => exact hm.live.le
  | wrote r a ha | refused r hb | started => cases hc
  | entombed p a ha hp hknown =>
    have hlive : (s.entombed a p).live = s.live - (s.heap p).size := rfl
    omega
  | unburied p hb =>
    rw [hb.same]
  | settled g hg => exact le_refl _
  | compacted hpath =>
    refine hpath.inv (I := fun u => u.live ≤ s.live) (fun u u' hstep hu => ?_) (fun _ hu => hu)
      (fun u u' hf hu => ?_) (le_refl _)
    · cases hstep <;> exact hu
    · obtain ⟨_, _, _, hb⟩ := hf
      rw [hb.same]
      exact hu

theorem options_step (env : Env) (c : Cmd) (s : Spool) (hc : c.deletes = true) :
    (step env c s).2.options = s.options := by
  by_cases hroll : c = .roll
  · subst hroll
    exact (rollLocked_quiet env s).1.options
  · refine (step_onward hroll ?_).options
    cases c <;> first | rfl | cases hc

theorem Cmd.admits_goesOn (hc : c.admits = true) : c.ends = false := by
  cases c with
  | note n => cases n <;> first | rfl | cases hc
  | _ => first | rfl | cases hc

theorem after_stampRecord (env : Env) (r : Record) (s : Spool) :
    after env (stampRecord r) s = s ∨ after env (stampRecord r) s = s.next := by
  unfold after stampRecord
  rw [Prog.exec_bind]
  simp only
  generalize (if r.site = [] then _ else r) = r'
  split
  · exact .inr rfl
  · exact .inl rfl

/-- What a full report supersedes is deleted, so it leaves more room, not less. -/
theorem supersedeEarlier_room (env : Env) (r : Record) (s : Spool) :
    (after env (supersedeEarlier env r) s).live ≤ s.live ∧
      (after env (supersedeEarlier env r) s).options = s.options := by
  refine Prog.exec_rel (r := fun a b => b.live ≤ a.live ∧ b.options = a.options)
    (fun _ => ⟨le_refl _, rfl⟩) (fun a b c hab hbc => ?_) (fun c t hc => ?_)
    (along_supersedeEarlier (fun _ _ hc => hc) r s)
  · exact ⟨hbc.1.trans hab.1, hbc.2.trans hab.2⟩
  · exact ⟨live_step_le hc, options_step env c t hc⟩

theorem Working.supersedeEarlier (h : Working env s) (r : Record) :
    Working env (after env (RelaySpool.supersedeEarlier env r) s) :=
  h.run (along_supersedeEarlier (fun _ _ hc => Cmd.admits_goesOn (Cmd.admits_of_deletes hc)) r s)

/-- **A working spool takes every record that fits.** -/
theorem Working.append (h : Working env s) {record : Record}
    (hfits : s.Fits env (answer env (stampRecord record) s)) :
    answer env (RelaySpool.append env record) s = none := by
  generalize hr : answer env (stampRecord record) s = r at hfits
  have hstamp : Working env (after env (stampRecord record) s) ∧
      (after env (stampRecord record) s).live = s.live ∧
      (after env (stampRecord record) s).options = s.options := by
    rcases after_stampRecord env record s with heq | heq <;> rw [heq]
    · exact ⟨h, rfl, rfl⟩
    · exact ⟨h.step (c := .newID) rfl, rfl, rfl⟩
  obtain ⟨ht, hlive, hoptions⟩ := hstamp
  rw [answer, exec_append, hr, ht.closed]
  generalize after env (stampRecord record) s = t at ht hlive hoptions
  obtain ⟨hlive', hoptions'⟩ := supersedeEarlier_room env r t
  have hu := ht.supersedeEarlier r
  have hexec : (placeRecord env r).exec (RelaySpool.step env) t =
      (RelaySpool.keepRecord r).exec (RelaySpool.step env)
        (after env (RelaySpool.supersedeEarlier env r) t).next := by
    rw [placeRecord_eq, Prog.exec_bind, Prog.exec_bind]
    rw [← after, exec_admitRecord_fits]
    · rw [hoptions', hoptions]
      have := hfits.1
      omega
    · rw [hoptions', hoptions]
      exact hfits.2 _
  simp only [hexec]
  exact (hu.step (c := .freeBytes) rfl).keepRecord r

/-- **A spool whose active file is closed takes no record at all.** -/
theorem Spool.Shut.append (h : s.Shut) (record : Record) :
    answer env (RelaySpool.append env record) s ≠ none := by
  have hdeletes : ∀ (c : Cmd) (_ : Spool), c.deletes = true → c.ends = false :=
    fun c _ hc => Cmd.admits_goesOn (Cmd.admits_of_deletes hc)
  intro hnone
  obtain ⟨-, hplace, -⟩ := append_none hnone
  have hstamp : (after env (stampRecord record) s).Shut := by
    rcases after_stampRecord env record s with heq | heq <;> rw [heq] <;> exact h
  generalize after env (stampRecord record) s = u at hplace hstamp
  generalize answer env (stampRecord record) s = r at hplace
  obtain ⟨-, hkeep, -⟩ := placeRecord_none hplace
  obtain ⟨t, a, ha, hopened, hens, -⟩ := keepRecord_none hkeep
  have hsuper : (after env (supersedeEarlier env r) u).Shut :=
    hstamp.run (along_supersedeEarlier hdeletes r u)
  have hadmitted : (admitted env r u).Shut :=
    hsuper.run (along_admitRecord (fun c _ hc => Cmd.admits_goesOn hc) r _)
  have hshut : (after env ensureActive (admitted env r u)).Shut :=
    hadmitted.run (along_ensureActive hdeletes _)
  rw [after, hens] at hshut
  exact (not_shut_iff ha).mpr hopened hshut

theorem closeActive_ok {t : Spool} (h : closeActive env s = (.ok (), t)) :
    t.handle = s.handle.map fun x => (x.1, false) := by
  unfold closeActive at h
  unfold Spool.handle
  split at h
  next ha =>
    obtain rfl : s = t := congrArg Prod.snd h
    rw [ha]
    rfl
  next a ha =>
  split at h
  · have ht : t = _ := (congrArg Prod.snd h).symm
    rw [ht, ha]
    rfl
  · cases congrArg Prod.fst h

/-- The state a roll leaves whose segment could not be created. -/
theorem rollLocked_failed (hclose : (closeActive env s).1 = .ok ())
    (hroll : (rollLocked env s).1 ≠ .ok ()) : (rollLocked env s).2.Shut ↔ s.active ≠ none := by
  have hcreate : ∀ t : Spool, (createSegment env t).1 ≠ .ok () →
      (createSegment env t).2.handle = t.handle := by
    intro t
    unfold createSegment
    repeat' split
    · exact fun _ => rfl
    · exact fun _ => rfl
    · exact fun ht => absurd rfl ht
  unfold rollLocked at hroll ⊢
  split
  next e t hc =>
    rw [hc] at hclose
    cases hclose
  next t hc =>
    rw [hc] at hroll
    have hhandle : t.handle = s.handle.map fun x => (x.1, false) := closeActive_ok hc
    rw [Spool.Shut, hcreate _ hroll,
      show ({ t with nextID := t.nextID + 1 } : Spool).handle = t.handle from rfl, hhandle,
      Spool.handle]
    cases s.active with
    | none | some a => simp

/-- **What becomes of a spool whose roll failed.**  The program before the roll and the
one behind it are arbitrary, so the roll may be one of any function, and any number of calls may
have come in between. -/
theorem append_after_failed_roll_iff (env : Env) (o : Options) (p q : SpoolM Unit) (t u : Spool)
    (ht : t = after env p (fresh env o)) (hclose : (closeActive env t).1 = .ok ())
    (hroll : (rollLocked env t).1 ≠ .ok ())
    (hcalm : ∀ n, (rollLocked env t).2.tick ≤ n → env.fault n = none)
    (hq : q.Along (step env) (fun c _ => c.ends = false) (rollLocked env t).2)
    (hu : u = after env q (rollLocked env t).2) (hopen : u.closed = false) (record : Record)
    (hfits : u.Fits env (answer env (stampRecord record) u)) :
    answer env (append env record) u = none ↔ t.active = none := by
  have hshut := rollLocked_failed hclose hroll
  constructor
  · intro hnone
    by_contra hactive
    have hend : u.Shut := hu ▸ (hshut.mpr hactive).run hq
    exact hend.append record hnone
  · intro hactive
    have hnamed : Named (rollLocked env t).2 := by
      rw [ht]
      exact Named.step (c := .roll) ((named_openSpool env rfl).run p)
    have hclosed : (rollLocked env t).2.closed = false := by
      rw [← closed_run hq, ← hu, hopen]
    have hworking : Working env (rollLocked env t).2 :=
      ⟨hnamed, hclosed, fun h => hshut.mp h hactive, hcalm⟩
    exact (hu ▸ hworking.run hq : Working env u).append hfits

/-- The first roll of a spool over an empty directory, of which the creation fails: the
record that was refused goes in at the second attempt. -/
theorem append_after_first_roll_failed : answer (failing 3 0) (append (failing 3 0) (smallRecord 1))
      (after (failing 3 0) (notKeptLocked (smallRecord 1) .io >>= fun _ => pure ())
        (rollLocked (failing 3 0) (after (failing 3 0)
          (roomLocked priorityControl 111 >>= fun _ => pure ())
          (fresh (failing 3 0) smallOptions))).2) = none := by
  have htick : (rollLocked (failing 3 0) (after (failing 3 0)
      (roomLocked priorityControl 111 >>= fun _ => pure ())
      (fresh (failing 3 0) smallOptions))).2.tick = 4 := by decide +kernel
  refine (append_after_failed_roll_iff (failing 3 0) smallOptions _ _ _ _ rfl rfl (by decide +kernel)
    (fun n hn => ?_) (by decide +kernel) rfl (by decide +kernel) (smallRecord 1)
    ⟨by decide +kernel, fun _ => rfl⟩).mpr (by decide +kernel)
  rw [htick] at hn
  exact if_neg (by omega)

/-- **A failed roll is not recovered from.**  The third append finds the segment full,
closes it and cannot create the next one; nothing fails from there on, and the fourth is refused
all the same. -/
theorem append_refused_after_failed_roll :
    let env := failing 13 0
    let before := after env (runOps env [.append (smallRecord 1), .append (smallRecord 2)])
      (fresh env smallOptions)
    let behind := after env (append env (smallRecord 3)) before
    (closeActive env before.next).1 = .ok () ∧ (rollLocked env before.next).1 = .error .io ∧
      answer env (append env (smallRecord 3)) before = some .io ∧
      (∀ n, (rollLocked env before.next).2.tick ≤ n → env.fault n = none) ∧
      behind.closed = false ∧ behind.Fits env (smallRecord 4) ∧
      answer env (append env (smallRecord 4)) behind = some .io := by
  have htick : (rollLocked (failing 13 0) (after (failing 13 0) (runOps (failing 13 0)
      [.append (smallRecord 1), .append (smallRecord 2)])
      (fresh (failing 13 0) smallOptions)).next).2.tick = 14 := by decide +kernel
  refine ⟨by decide +kernel, by decide +kernel, by decide +kernel, fun n hn => ?_,
    by decide +kernel, ⟨by decide +kernel, fun _ => rfl⟩, by decide +kernel⟩
  rw [htick] at hn
  exact if_neg (by omega)

end Flotestro.RelaySpool
