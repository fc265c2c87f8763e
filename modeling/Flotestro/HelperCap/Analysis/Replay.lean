import Flotestro.HelperCap.Analysis.Records

/-!
# At most one effect for a signed request

The record of a request stands from its reservation until the sweep takes it, and no capability of its
nonce is in its window by then.  A `Verify` that passed its clock check and waits for the lock is not
held to this, and neither is a capability of the same nonce that expires at another time; a record that
was rewritten in part is taken too early, or read as another result.
-/

set_option autoImplicit false

namespace Flotestro.HelperCap.Replay

open Library List

/-- An expiry that the sweep computes with as with a number. -/
def Ranged (expires : Int) : Prop := -2 ^ 63 ≤ expires ∧ expires + clockSkew < 2 ^ 63

theorem Ranged.int64 {x : Int} (h : Ranged x) : Int64Range x := by
  obtain ⟨hlow, hhigh⟩ := h
  unfold clockSkew at hhigh
  exact ⟨hlow, by omega⟩

theorem effect_ne_owner (nonce : Bytes) (r : Request) (other : Bytes) :
    Name.effect nonce r ≠ .owner other := by
  intro h
  cases h

namespace Store

section

variable (expiry : Bytes → Int)

/-- The capabilities of one nonce expire at one time; a `Verify` has the lock before the sweep
may take its record, and reads the record of its request whole or not at all; a `Complete` writes the
record whole or not at all, and one that is short enough to be read. -/
def Careful : Event → Store → Prop
  | .check _ c _ _, _ => c.expires = expiry c.nonce ∧ Ranged c.expires
  | .reserve v fate, s =>
    (∀ c r mutating, s.waiting v = some (c, r, mutating) → s.unix ≤ c.expires + clockSkew) ∧
      ∀ n, fate.effectRead = some n → n = 0
  | .complete c r result rewriting, s =>
    (c.expires = expiry c.nonce ∧ Ranged c.expires) ∧ (rewriting = .failed ∨ rewriting = .done) ∧
      (effectRecord c.expires r.taskID s.life stateCompleted (keptBody result)).length ≤ readBound
  | .tick _, _ | .sweep _, _ | .restart _ _ _, _ => True

/-- The records of the nonce may be swept. -/
def Over (s : Store) (nonce : Bytes) : Prop := expiry nonce + clockSkew < s.unix

/-- A record whose first line is the expiry of its nonce. -/
def Dated (nonce content : Bytes) : Prop :=
  Ranged (expiry nonce) ∧ ∃ t, content = formatInt (expiry nonce) ++ newline :: t

/-- A record that a power cut does not change and only a sweep at its time takes. -/
def Stands (s : Store) (name : Name) (nonce : Bytes) : Prop :=
  ∃ file, s.files name = some file ∧ file.synced = true ∧ file.entrySynced = true ∧
    Dated expiry nonce file.content

/-- What a reservation leaves of its record. -/
def Reserved (nonce : Bytes) (r : Request) (content : Bytes) : Prop :=
  ∃ life, newline ∉ life ∧ content <+: effectRecord (expiry nonce) r.taskID life stateReserved []

/-- The record of the result that was recorded last. -/
def Completed (s : Store) (nonce : Bytes) (r : Request) (content : Bytes) : Prop :=
  ∃ life result, newline ∉ life ∧
    content = effectRecord (expiry nonce) r.taskID life stateCompleted (keptBody result) ∧
    content.length ≤ readBound ∧ s.resultOf nonce r = some result ∧ Ranged (expiry nonce)

/-- The record of the request is there, or may come back. -/
def Present (s : Store) (nonce : Bytes) (r : Request) : Prop :=
  s.files (.effect nonce r) ≠ none ∨ s.removed (.effect nonce r) ≠ none

structure Inv (s : Store) : Prop where
  once : s.fresh.Nodup
  held : ∀ nonce r, (nonce, r) ∈ s.fresh → Over expiry s nonce ∨ Stands expiry s (.effect nonce r) nonce
  content : ∀ nonce r file, s.files (.effect nonce r) = some file → file.previous = none ∧
    (Over expiry s nonce ∨ Reserved expiry nonce r file.content ∨
      file.synced = true ∧ Completed expiry s nonce r file.content)
  removed : ∀ nonce r content, s.removed (.effect nonce r) = some content →
    Over expiry s nonce ∨ Reserved expiry nonce r content
  owner : ∀ nonce r, newline ∈ r.taskID → Present s nonce r →
    Over expiry s nonce ∨ Stands expiry s (.owner nonce) nonce
  waiting : ∀ v c r mutating, s.waiting v = some (c, r, mutating) →
    c.expires = expiry c.nonce ∧ Ranged c.expires
  life : newline ∉ s.life

end

variable {expiry : Bytes → Int} {s s' : Store} {nonce : Bytes} {r : Request}

variable {name other : Name} {file : File} {content result : Bytes} {skips : Name → Bool}
variable {t : Store}

theorem Completed.dated (h : Completed expiry s nonce r content) : Dated expiry nonce content := by
  obtain ⟨life, result, -, rfl, -, -, hranged⟩ := h
  exact ⟨hranged, _, rfl⟩

theorem dated_ownerRecord {c : Capability} (hc : c.expires = expiry c.nonce ∧ Ranged c.expires)
    (taskID life : Bytes) : Dated expiry c.nonce (ownerRecord c.expires taskID life) := by
  unfold Dated
  rw [← hc.1]
  exact ⟨hc.2, _, rfl⟩

theorem dated_effectRecord {c : Capability} (hc : c.expires = expiry c.nonce ∧ Ranged c.expires)
    (taskID life state body : Bytes) :
    Dated expiry c.nonce (effectRecord c.expires taskID life state body) := by
  unfold Dated
  rw [← hc.1]
  exact ⟨hc.2, _, rfl⟩

/-! ## Sweeps -/

/-- A record with its expiry is swept only when it is over. -/
theorem over_of_expired (hdated : Dated expiry nonce file.content)
    (h : s.expired skips name file = true) : Over expiry s nonce := by
  obtain ⟨hranged, t, ht⟩ := hdated
  have hwrap : wrap64 (expiry nonce + clockSkew) = expiry nonce + clockSkew := by
    refine wrap64_of_range ⟨?_, hranged.2⟩
    have hlow := hranged.1
    unfold clockSkew
    omega
  unfold expired at h
  rw [ht, expiryOf_line hranged.int64, Bool.and_eq_true] at h
  dsimp only at h
  rw [hwrap, decide_eq_true_eq] at h
  exact h.2

theorem Stands.sweepAll (h : Stands expiry s name nonce) (skips : Name → Bool) :
    Over expiry s nonce ∨ Stands expiry (s.sweepAll skips) name nonce := by
  obtain ⟨file, hfile, hsynced, hentry, hdated⟩ := h
  cases hexpired : s.expired skips name file with
  | true => exact .inl (over_of_expired hdated hexpired)
  | false =>
    refine .inr ⟨file, ?_, hsynced, hentry, hdated⟩
    change (s.files name).filter (fun file => !s.expired skips name file) = some file
    rw [hfile]
    exact Option.filter_eq_some_iff.mpr ⟨rfl, by rw [hexpired]; rfl⟩

theorem files_of_sweepAll (h : (s.sweepAll skips).files name = some file) :
    s.files name = some file :=
  (Option.filter_eq_some_iff.mp h).1

/-- What was unlinked is from before, or a record that is over. -/
theorem removed_of_sweepAll (h : (s.sweepAll skips).removed name = some content) :
    s.removed name = some content ∨
      ∃ file, s.files name = some file ∧ file.content = content ∧ s.expired skips name file = true := by
  unfold sweepAll at h
  dsimp only at h
  split at h
  next file hfile =>
    split at h
    next hexpired => exact .inr ⟨file, hfile, Option.some.inj h, hexpired⟩
    · exact .inl h
  · exact .inl h

theorem present_of_sweepAll (h : Present (s.sweepAll skips) nonce r) : Present s nonce r := by
  rcases h with h | h
  · obtain ⟨file, hfile⟩ := Option.ne_none_iff_exists'.mp h
    exact .inl (Option.ne_none_iff_exists'.mpr ⟨file, files_of_sweepAll hfile⟩)
  · obtain ⟨content, hcontent⟩ := Option.ne_none_iff_exists'.mp h
    rcases removed_of_sweepAll hcontent with hold | ⟨file, hfile, -⟩
    · exact .inr (Option.ne_none_iff_exists'.mpr ⟨content, hold⟩)
    · exact .inl (Option.ne_none_iff_exists'.mpr ⟨file, hfile⟩)

theorem Inv.sweepAll (h : Inv expiry s) (skips : Name → Bool) : Inv expiry (s.sweepAll skips) where
  __ := h
  held nonce r hin := by
    rcases h.held nonce r hin with hover | hstands
    · exact .inl hover
    · exact hstands.sweepAll skips
  content nonce r file hfile := h.content nonce r file (files_of_sweepAll hfile)
  removed nonce r content hcontent := by
    rcases removed_of_sweepAll hcontent with hold | ⟨file, hfile, rfl, hexpired⟩
    · exact h.removed nonce r content hold
    · rcases (h.content nonce r file hfile).2 with hover | hreserved | ⟨-, hcompleted⟩
      · exact .inl hover
      · exact .inr hreserved
      · exact .inl (over_of_expired hcompleted.dated hexpired)
  owner nonce r htask hpresent := by
    rcases h.owner nonce r htask (present_of_sweepAll hpresent) with hover | hstands
    · exact .inl hover
    · exact hstands.sweepAll skips

theorem sweepLocked_cases (s : Store) (skips : Name → Bool) :
    s.sweepLocked skips = s ∨ s.sweepLocked skips = s.sweepAll skips := by
  unfold sweepLocked
  split
  · split
    · exact .inl rfl
    · exact .inr rfl
  · exact .inr rfl

theorem Inv.sweepLocked (h : Inv expiry s) (skips : Name → Bool) : Inv expiry (s.sweepLocked skips) := by
  rcases sweepLocked_cases s skips with heq | heq <;> rw [heq]
  · exact h
  · exact h.sweepAll skips

/-! ## Files that are made -/

theorem setFile_self (s : Store) (name : Name) (file : File) :
    (s.setFile name file).files name = some file :=
  if_pos rfl

theorem setFile_other (hne : other ≠ name) (file : File) :
    (s.setFile name file).files other = s.files other :=
  if_neg hne

theorem Stands.setFile (h : Stands expiry s name nonce) (hne : name ≠ other) (file : File) :
    Stands expiry (s.setFile other file) name nonce := by
  obtain ⟨old, hold, hrest⟩ := h
  exact ⟨old, (setFile_other hne file).trans hold, hrest⟩

theorem Inv.setOwner (h : Inv expiry s) (hnone : s.files (.owner nonce) = none) (file : File) :
    Inv expiry (s.setFile (.owner nonce) file) where
  __ := h
  held other r hin := (h.held other r hin).imp_right fun hstands =>
    hstands.setFile (effect_ne_owner other r nonce) file
  content other r f hf :=
    h.content other r f ((setFile_other (effect_ne_owner other r nonce) file).symm.trans hf)
  owner other r htask hpresent := by
    have hold : Present s other r := by
      refine hpresent.imp_left fun hfile => ?_
      rwa [setFile_other (effect_ne_owner other r nonce)] at hfile
    rcases h.owner other r htask hold with hover | hstands
    · exact .inl hover
    · refine .inr (hstands.setFile (fun heq => ?_) file)
      obtain ⟨old, hold, -⟩ := hstands
      rw [heq, hnone] at hold
      cases hold

theorem Inv.setEffect (h : Inv expiry s) (hnone : s.files (.effect nonce r) = none)
    (hprevious : file.previous = none) (hreserved : Reserved expiry nonce r file.content)
    (howner : newline ∈ r.taskID → Over expiry s nonce ∨ Stands expiry s (.owner nonce) nonce) :
    Inv expiry (s.setFile (.effect nonce r) file) where
  __ := h
  held other q hin := by
    refine (h.held other q hin).imp_right fun hstands => hstands.setFile (fun heq => ?_) file
    obtain ⟨old, hold, -⟩ := hstands
    rw [heq, hnone] at hold
    cases hold
  content other q f hf := by
    by_cases heq : Name.effect other q = .effect nonce r
    · obtain ⟨rfl, rfl⟩ := Name.effect.inj heq
      rw [setFile_self] at hf
      cases hf
      exact ⟨hprevious, .inr (.inl hreserved)⟩
    · exact h.content other q f ((setFile_other heq file).symm.trans hf)
  owner other q htask hpresent := by
    have hstands : Over expiry s other ∨ Stands expiry s (.owner other) other := by
      by_cases heq : Name.effect other q = .effect nonce r
      · obtain ⟨rfl, rfl⟩ := Name.effect.inj heq
        exact howner htask
      · refine h.owner other q htask (hpresent.imp_left fun hfile => ?_)
        rwa [setFile_other heq] at hfile
    exact hstands.imp_right fun hs => hs.setFile (effect_ne_owner nonce r other).symm file

theorem syncDir_files (h : s.files name = some file) :
    s.syncDir.files name = some { file with entrySynced := true } := by
  change (s.files name).map _ = _
  rw [h]
  rfl

theorem Stands.syncDir (h : Stands expiry s name nonce) : Stands expiry s.syncDir name nonce := by
  obtain ⟨file, hfile, hsynced, -, hdated⟩ := h
  exact ⟨_, syncDir_files hfile, hsynced, rfl, hdated⟩

theorem Inv.syncDir (h : Inv expiry s) : Inv expiry s.syncDir where
  __ := h
  held nonce r hin := (h.held nonce r hin).imp_right Stands.syncDir
  content nonce r file hfile := by
    obtain ⟨old, hold, rfl⟩ := Option.map_eq_some_iff.mp hfile
    exact h.content nonce r old hold
  removed nonce r content hcontent := by cases hcontent
  owner nonce r htask hpresent := by
    refine (h.owner nonce r htask (.inl fun hnone => ?_)).imp_right Stands.syncDir
    rcases hpresent with hfile | hremoved
    · refine hfile ?_
      change (s.files (.effect nonce r)).map _ = none
      rw [hnone]
      rfl
    · exact hremoved rfl

/-- The reservations, the results, the clock and the life are as they were. -/
structure Unmoved (s t : Store) : Prop where
  fresh : t.fresh = s.fresh
  recorded : t.recorded = s.recorded
  now : t.now = s.now
  life : t.life = s.life

theorem Unmoved.refl (s : Store) : Unmoved s s := ⟨rfl, rfl, rfl, rfl⟩

theorem Unmoved.trans {u : Store} (h : Unmoved s t) (h' : Unmoved t u) : Unmoved s u :=
  ⟨h'.fresh.trans h.fresh, h'.recorded.trans h.recorded, h'.now.trans h.now, h'.life.trans h.life⟩

theorem unmoved_create (s : Store) (name : Name) (content : Bytes) (creation : Creation) :
    Unmoved s (s.create name content creation).1 := by
  cases creation <;> exact ⟨rfl, rfl, rfl, rfl⟩

theorem create_done {creation : Creation} (h : (s.create name content creation).2 = true) :
    (s.create name content creation).1.files name = some ⟨content, none, true, true⟩ := by
  cases creation with
  | done => exact syncDir_files (setFile_self s name ⟨content, none, true, false⟩)
  | failed | wrote | unsynced | undurable => cases h

theorem create_other (hne : other ≠ name) {creation : Creation} :
    (s.create name content creation).1.files other = none ↔ s.files other = none := by
  cases creation with
  | failed => exact .rfl
  | wrote n | unsynced | undurable => exact (setFile_other hne _).symm ▸ .rfl
  | done =>
    change ((s.setFile name _).files other).map _ = none ↔ _
    rw [setFile_other hne, Option.map_eq_none_iff]

theorem Inv.createOwner (h : Inv expiry s) (hnone : s.files (.owner nonce) = none) (content : Bytes)
    (creation : Creation) : Inv expiry (s.create (.owner nonce) content creation).1 := by
  cases creation with
  | failed => exact h
  | wrote n | unsynced | undurable => exact h.setOwner hnone _
  | done => exact (h.setOwner hnone _).syncDir

theorem Inv.createEffect (h : Inv expiry s) (hnone : s.files (.effect nonce r) = none)
    (hreserved : Reserved expiry nonce r content)
    (howner : newline ∈ r.taskID → Over expiry s nonce ∨ Stands expiry s (.owner nonce) nonce)
    (creation : Creation) : Inv expiry (s.create (.effect nonce r) content creation).1 := by
  cases creation with
  | failed => exact h
  | wrote n =>
    obtain ⟨life, hlife, hcontent⟩ := hreserved
    exact h.setEffect hnone rfl ⟨life, hlife, (List.take_prefix n content).trans hcontent⟩ howner
  | unsynced | undurable => exact h.setEffect hnone rfl hreserved howner
  | done => exact (h.setEffect hnone rfl hreserved howner).syncDir

/-! ## The owner of a nonce -/

variable {c : Capability} {fate : Fate}

/-- Of the files a claim changes the owner record alone. -/
structure Claimed (s t : Store) (c : Capability) (taskID : Bytes) : Prop where
  effects : ∀ nonce r, t.files (.effect nonce r) = none ↔ s.files (.effect nonce r) = none
  /-- the task has one line, or its record was made just now -/
  task : newline ∉ taskID ∨ s.files (.owner c.nonce) = none ∧
    t.files (.owner c.nonce) = some ⟨ownerRecord c.expires taskID s.life, none, true, true⟩

theorem Inv.claimOwner (h : Inv expiry s) (taskID : Bytes) :
    Inv expiry (s.claimOwner c taskID fate).1 := by
  unfold Store.claimOwner
  split
  · dsimp only
    split
    · exact h
    · split <;> exact h
  next hnone => exact h.createOwner hnone _ _

theorem claimed_of_claimOwner {taskID : Bytes} (h : (s.claimOwner c taskID fate).2 = none) :
    Claimed s (s.claimOwner c taskID fate).1 c taskID := by
  unfold Store.claimOwner at h ⊢
  split at h
  next file hfile =>
    dsimp only at h ⊢
    split at h
    · cases h
    next hopened =>
      rw [if_neg hopened]
      split at h
      next hlines =>
        rw [if_pos hlines]
        refine ⟨fun _ _ => .rfl, .inl ?_⟩
        have hmem := mem_of_getElem? hlines.2.1
        unfold readRecord at hmem
        split at hmem <;> exact notMem_of_mem_splitOn hmem
      · cases h
  next hnone =>
    obtain ⟨hdone, h⟩ := of_then h nofun
    exact ⟨fun _ _ => create_other (effect_ne_owner _ _ _), .inr ⟨hnone, create_done hdone⟩⟩

/-! ## Reservations -/

theorem answerOf_ne_fresh (lines : List Bytes) : answerOf lines ≠ .fresh := by
  unfold answerOf keptAnswer
  split
  · exact nofun
  split
  · split
    · exact nofun
    · split <;> exact nofun
  · exact nofun

theorem unmoved_sweepLocked (s : Store) (skips : Name → Bool) : Unmoved s (s.sweepLocked skips) := by
  rcases sweepLocked_cases s skips with heq | heq <;> rw [heq] <;> exact ⟨rfl, rfl, rfl, rfl⟩

/-- What a claim leaves for the reservation of the request. -/
structure Ready (expiry : Bytes → Int) (s t : Store) (c : Capability) (r : Request) : Prop where
  inv : Inv expiry t
  fresh : t.fresh = s.fresh
  recorded : t.recorded = s.recorded
  now : t.now = s.now
  /-- the record of a task of several lines stands from now on -/
  owner : newline ∈ r.taskID → Stands expiry t (.owner c.nonce) c.nonce
  /-- and the request has no record then that counts -/
  several : newline ∈ r.taskID → t.files (.effect c.nonce r) ≠ none → Over expiry t c.nonce

theorem Ready.not_over (h : Ready expiry s t c r) (hc : c.expires = expiry c.nonce)
    (hprompt : s.unix ≤ c.expires + clockSkew) : ¬Over expiry t c.nonce := by
  unfold Over unix
  rw [h.now, ← hc]
  exact Int.not_lt.mpr hprompt

theorem Inv.claim (h : Inv expiry s) : Inv expiry (s.claim c r fate).1 :=
  (h.sweepLocked fate.skips).claimOwner r.taskID

theorem unmoved_claim (s : Store) (c : Capability) (r : Request) (fate : Fate) :
    Unmoved s (s.claim c r fate).1 := by
  have hswept := unmoved_sweepLocked s fate.skips
  unfold Store.claim Store.claimOwner
  split
  · dsimp only
    split
    · exact hswept
    · split <;> exact hswept
  · exact hswept.trans (unmoved_create _ _ _ _)

theorem ready_of_claim (h : Inv expiry s) (hc : c.expires = expiry c.nonce ∧ Ranged c.expires)
    (hclaim : s.claim c r fate = (t, none)) : Ready expiry s t c r := by
  have hnone : ((s.sweepLocked fate.skips).claimOwner c r.taskID fate).2 = none :=
    congrArg Prod.snd hclaim
  obtain rfl : (s.claim c r fate).1 = t := congrArg Prod.fst hclaim
  have hunmoved := unmoved_claim s c r fate
  have hclaimed := claimed_of_claimOwner hnone
  refine ⟨h.claim, hunmoved.fresh, hunmoved.recorded, hunmoved.now, fun htask => ?_,
    fun htask hfile => ?_⟩
  · obtain ⟨-, howner⟩ := hclaimed.task.resolve_left fun hline => hline htask
    exact ⟨_, howner, rfl, rfl, dated_ownerRecord hc _ _⟩
  · obtain ⟨hempty, -⟩ := hclaimed.task.resolve_left fun hline => hline htask
    have hpresent : (s.sweepLocked fate.skips).files (.effect c.nonce r) ≠ none := fun hgone =>
      hfile ((hclaimed.effects c.nonce r).mpr hgone)
    rcases (h.sweepLocked fate.skips).owner c.nonce r htask (.inl hpresent) with hover | ⟨old, hold, -⟩
    · have hunix : (s.claim c r fate).1.unix = (s.sweepLocked fate.skips).unix := by
        unfold unix
        rw [hunmoved.now, (unmoved_sweepLocked s fate.skips).now]
      unfold Over
      rw [hunix]
      exact hover
    · rw [hempty] at hold
      cases hold

theorem reserve_cases (s : Store) (c : Capability) (r : Request) (mutating : Bool) (fate : Fate) :
    s.reserve c r mutating fate = (s, .refused .invalidNonce) ∨
      (∃ why, s.reserve c r mutating fate = ((s.claim c r fate).1, .refused why)) ∨
      ∃ t, s.claim c r fate = (t, none) ∧
        s.reserve c r mutating fate = if mutating then t.claimEffect c r fate else (t, .fresh) := by
  unfold reserve
  split
  · exact .inl rfl
  split
  next t why hclaim =>
    refine .inr (.inl ⟨why, ?_⟩)
    rw [hclaim]
  next t hclaim => exact .inr (.inr ⟨t, hclaim, rfl⟩)

theorem unmoved_claimEffect (s : Store) (c : Capability) (r : Request) (fate : Fate) :
    Unmoved s (s.claimEffect c r fate).1 := by
  unfold claimEffect
  split
  · split <;> exact .refl s
  · exact unmoved_create _ _ _ _

theorem unmoved_reserve (s : Store) (c : Capability) (r : Request) (mutating : Bool) (fate : Fate) :
    Unmoved s (s.reserve c r mutating fate).1 := by
  have hclaimed := unmoved_claim s c r fate
  rcases reserve_cases s c r mutating fate with heq | ⟨why, heq⟩ | ⟨t, hclaim, heq⟩ <;> rw [heq]
  · exact .refl s
  · exact hclaimed
  rw [hclaim] at hclaimed
  split
  · exact hclaimed.trans (unmoved_claimEffect t c r fate)
  · exact hclaimed

theorem Ready.claimEffect (h : Ready expiry s t c r) (hc : c.expires = expiry c.nonce) :
    Inv expiry (t.claimEffect c r fate).1 := by
  unfold Store.claimEffect
  split
  · split <;> exact h.inv
  next hnone =>
    refine h.inv.createEffect hnone ⟨t.life, h.inv.life, ?_⟩ (fun htask => .inr (h.owner htask)) _
    rw [hc]

section
variable (h : Inv expiry s) (hc : c.expires = expiry c.nonce ∧ Ranged c.expires)
include h hc

theorem Inv.reserve (mutating : Bool) : Inv expiry (s.reserve c r mutating fate).1 := by
  rcases reserve_cases s c r mutating fate with heq | ⟨why, heq⟩ | ⟨t, hclaim, heq⟩ <;> rw [heq]
  · exact h
  · exact h.claim
  have hready := ready_of_claim h hc hclaim
  split
  · exact hready.claimEffect hc.1
  · exact hready.inv

theorem fresh_of_reserve
    (hprompt : s.unix ≤ c.expires + clockSkew) (hfresh : (s.reserve c r true fate).2 = .fresh) :
    (c.nonce, r) ∉ s.fresh ∧ Stands expiry (s.reserve c r true fate).1 (.effect c.nonce r) c.nonce := by
  rcases reserve_cases s c r true fate with heq | ⟨why, heq⟩ | ⟨t, hclaim, heq⟩
  · rw [heq] at hfresh
    cases hfresh
  · rw [heq] at hfresh
    cases hfresh
  rw [if_pos rfl] at heq
  rw [heq] at hfresh ⊢
  have hready := ready_of_claim h hc hclaim
  unfold Store.claimEffect at hfresh ⊢
  split at hfresh
  next file hfile =>
    split at hfresh
    · cases hfresh
    · exact absurd hfresh (answerOf_ne_fresh _)
  next hnone =>
    obtain ⟨hdone, hfresh⟩ := of_then hfresh nofun
    refine ⟨fun hin => ?_, _, create_done hdone, rfl, rfl, dated_effectRecord hc _ _ _ _⟩
    rw [← hready.fresh] at hin
    rcases hready.inv.held c.nonce r hin with hover | ⟨old, hold, -⟩
    · exact hready.not_over hc.1 hprompt hover
    · rw [hnone] at hold
      cases hold

/-- **What is kept is what was recorded.** -/
theorem kept_of_reserve
    (hprompt : s.unix ≤ c.expires + clockSkew) (hread : ∀ n, fate.effectRead = some n → n = 0)
    (hkept : (s.reserve c r true fate).2 = .kept result) :
    result ≠ [] ∧ s.resultOf c.nonce r = some result := by
  rcases reserve_cases s c r true fate with heq | ⟨why, heq⟩ | ⟨t, hclaim, heq⟩
  · rw [heq] at hkept
    cases hkept
  · rw [heq] at hkept
    cases hkept
  rw [if_pos rfl] at heq
  rw [heq] at hkept
  have hready := ready_of_claim h hc hclaim
  have hover : ¬Over expiry t c.nonce := hready.not_over hc.1 hprompt
  unfold Store.claimEffect at hkept
  split at hkept
  next file hfile =>
    split at hkept
    · cases hkept
    have htask : newline ∉ r.taskID := fun hin =>
      hover (hready.several hin (by rw [hfile]; exact Option.some_ne_none file))
    rcases (hready.inv.content c.nonce r file hfile).2 with hover' | ⟨life, hlife, hreserved⟩ |
      ⟨-, life, recorded, hlife, hcontent, hlength, hresult, -⟩
    · exact absurd hover' hover
    · refine absurd hkept ?_
      unfold readRecord
      have hcut := (List.take_prefix readBound file.content).trans hreserved
      split
      · exact answerOf_reserved htask hlife hcut result
      next n _ => exact answerOf_reserved htask hlife ((List.take_prefix n _).trans hcut) result
    · unfold readRecord at hkept
      split at hkept
      · rw [take_of_length_le hlength, hcontent] at hkept
        obtain ⟨rfl, hne⟩ := answerOf_completed htask hlife hkept
        refine ⟨hne, ?_⟩
        unfold resultOf at hresult ⊢
        rwa [hready.recorded] at hresult
      next n hn =>
        rw [hread n hn] at hkept
        cases hkept
  · dsimp only at hkept
    split at hkept <;> cases hkept

end

/-! ## Results and restarts -/

theorem resultOf_cons {s : Store} {c : Capability} {other : Bytes} {q : Request}
    (hne : (other, q) ≠ (c.nonce, r)) :
    List.lookup (other, q) (((c.nonce, r), result) :: s.recorded) = s.resultOf other q := by
  rw [lookup_cons, beq_eq_false_iff_ne.mpr hne]
  rfl

theorem Inv.completed (h : Inv expiry s) (hc : c.expires = expiry c.nonce ∧ Ranged c.expires)
    {new : File} (hfile : s.files (.effect c.nonce r) = some file)
    (hcontent : new.content = effectRecord c.expires r.taskID s.life stateCompleted (keptBody result))
    (hprevious : new.previous = none) (hsynced : new.synced = true)
    (hentry : new.entrySynced = file.entrySynced) (hlength : new.content.length ≤ readBound) :
    Inv expiry { s.setFile (.effect c.nonce r) new with
      recorded := ((c.nonce, r), result) :: s.recorded } where
  __ := h
  held nonce q hin := by
    rcases h.held nonce q hin with hover | hstands
    · exact .inl hover
    refine .inr ?_
    by_cases heq : Name.effect nonce q = .effect c.nonce r
    · obtain ⟨rfl, rfl⟩ := Name.effect.inj heq
      obtain ⟨old, hold, -, hdurable, -⟩ := hstands
      obtain rfl : file = old := Option.mem_unique hfile hold
      refine ⟨new, setFile_self s _ new, hsynced, hentry.trans hdurable, ?_⟩
      rw [hcontent]
      exact dated_effectRecord hc _ _ _ _
    · exact hstands.setFile heq new
  content nonce q f hf := by
    by_cases heq : Name.effect nonce q = .effect c.nonce r
    · obtain ⟨rfl, rfl⟩ := Name.effect.inj heq
      obtain rfl : new = f := Option.some.inj ((setFile_self s _ new).symm.trans hf)
      refine ⟨hprevious, .inr (.inr ⟨hsynced, s.life, result, h.life, ?_, hlength, ?_, hc.1 ▸ hc.2⟩)⟩
      · rw [hcontent, hc.1]
      · exact lookup_cons_self
    · obtain ⟨hnone, hcases⟩ := h.content nonce q f ((setFile_other heq new).symm.trans hf)
      refine ⟨hnone, ?_⟩
      rcases hcases with hover | hreserved | ⟨hs, life, kept, hlife, hrecord, hshort, hresult, hranged⟩
      · exact .inl hover
      · exact .inr (.inl hreserved)
      · refine .inr (.inr ⟨hs, life, kept, hlife, hrecord, hshort, ?_, hranged⟩)
        refine (resultOf_cons fun hpair => heq ?_).trans hresult
        obtain ⟨rfl, rfl⟩ := Prod.mk.inj hpair
        rfl
  owner nonce q htask hpresent := by
    have hold : Present s nonce q := by
      refine hpresent.imp_left fun hsome hnone => hsome ?_
      by_cases heq : Name.effect nonce q = .effect c.nonce r
      · rw [heq, hfile] at hnone
        cases hnone
      · exact (setFile_other heq new).trans hnone
    exact (h.owner nonce q htask hold).imp_right fun hstands =>
      hstands.setFile (effect_ne_owner c.nonce r nonce).symm new

theorem Inv.complete (h : Inv expiry s) {rewriting : Rewriting}
    (hcareful : Careful expiry (.complete c r result rewriting) s) :
    Inv expiry (s.complete c r result rewriting) := by
  obtain ⟨hc, hwhole, hlength⟩ := hcareful
  unfold Store.complete
  split
  · exact h
  next file hfile =>
    rcases hwhole with rfl | rfl
    · exact h
    · exact h.completed hc hfile rfl rfl rfl rfl hlength

theorem Stands.afterCut (h : Stands expiry s name nonce) (loss : Loss) :
    ∃ file, s.afterCut loss name = some file ∧ file.synced = true ∧ file.entrySynced = true ∧
      Dated expiry nonce file.content := by
  obtain ⟨file, hfile, hsynced, hentry, hdated⟩ := h
  refine ⟨{ file with entrySynced := true }, ?_, hsynced, rfl, hdated⟩
  unfold Store.afterCut
  rw [hfile]
  dsimp only
  rw [hentry, hsynced]
  rfl

/-- What a power cut leaves of a file: a removed one, the file itself, or a part of one that
was not flushed. -/
theorem afterCut_cases {loss : Loss} (h : s.afterCut loss name = some file) :
    (∃ content, s.removed name = some content ∧ file = ⟨content, none, true, true⟩) ∨
      ∃ old, s.files name = some old ∧
        (old.synced = true ∧ file = { old with entrySynced := true } ∨
          old.synced = false ∧ (old.previous = none →
            ∃ n, file = ⟨old.content.take n, none, true, true⟩)) := by
  have hback : ∀ {f : File}, s.broughtBack loss name = some f →
      ∃ content, s.removed name = some content ∧ f = ⟨content, none, true, true⟩ := by
    intro f hf
    obtain ⟨-, hf⟩ := of_then hf nofun
    obtain ⟨content, hcontent, rfl⟩ := Option.map_eq_some_iff.mp hf
    exact ⟨content, hcontent, rfl⟩
  unfold Store.afterCut at h
  split at h
  · exact .inl (hback h)
  next old hold =>
    split at h
    · exact .inl (hback h)
    split at h
    next hsynced => exact .inr ⟨old, hold, .inl ⟨hsynced, (Option.some.inj h).symm⟩⟩
    next hsynced =>
      refine .inr ⟨old, hold, .inr ⟨by simpa using hsynced, fun hprevious => ?_⟩⟩
      refine ⟨loss.length name, ?_⟩
      rw [hprevious] at h
      dsimp only [Option.getD_none] at h
      rw [ite_self] at h
      exact (Option.some.inj h).symm

theorem Inv.restart (h : Inv expiry s) (life : Bytes) (loss : Loss) (skips : Name → Bool) :
    Inv expiry (s.restart life loss skips) := by
  unfold Store.restart
  refine Inv.sweepLocked ?_ skips
  refine ⟨h.once, fun nonce r hin => ?_, fun nonce r file hfile => ?_, fun nonce r content hcontent => ?_,
    fun nonce r htask hpresent => ?_, fun v c r mutating hwaiting => ?_, newline_notMem_hexEncode life⟩
  · exact (h.held nonce r hin).imp_right fun hstands => hstands.afterCut loss
  · rcases afterCut_cases hfile with ⟨content, hcontent, rfl⟩ | ⟨old, hold, hcases⟩
    · refine ⟨rfl, ?_⟩
      rcases h.removed nonce r content hcontent with hover | hreserved
      · exact .inl hover
      · exact .inr (.inl hreserved)
    · obtain ⟨hprevious, hcontent⟩ := h.content nonce r old hold
      rcases hcases with ⟨-, rfl⟩ | ⟨hsynced, hcut⟩
      · exact ⟨hprevious, hcontent⟩
      obtain ⟨n, rfl⟩ := hcut hprevious
      refine ⟨rfl, ?_⟩
      rcases hcontent with hover | ⟨life, hlife, hreserved⟩ | ⟨hs, -⟩
      · exact .inl hover
      · exact .inr (.inl ⟨life, hlife, (List.take_prefix n _).trans hreserved⟩)
      · rw [hsynced] at hs
        cases hs
  · cases hcontent
  · have hold : Present s nonce r := by
      rcases hpresent with hfile | hremoved
      · obtain ⟨file, hfile⟩ := Option.ne_none_iff_exists'.mp hfile
        rcases afterCut_cases hfile with ⟨content, hcontent, -⟩ | ⟨old, hold, -⟩
        · exact .inr (Option.ne_none_iff_exists'.mpr ⟨content, hcontent⟩)
        · exact .inl (Option.ne_none_iff_exists'.mpr ⟨old, hold⟩)
      · exact absurd rfl hremoved
    exact (h.owner nonce r htask hold).imp_right fun hstands => hstands.afterCut loss
  · cases hwaiting

theorem Over.tick (h : Over expiry s nonce) (n : Nat) :
    Over expiry { s with now := s.now + n } nonce := by
  unfold Over unix at *
  dsimp only
  have hle : s.now / 10 ^ 9 ≤ (s.now + n) / 10 ^ 9 := Int.ediv_le_ediv (by decide) (by omega)
  omega

theorem Inv.tick (h : Inv expiry s) (n : Nat) : Inv expiry { s with now := s.now + n } where
  __ := h
  held nonce r hin := (h.held nonce r hin).imp_left fun hover => hover.tick n
  content nonce r file hfile := by
    obtain ⟨hprevious, hcontent⟩ := h.content nonce r file hfile
    exact ⟨hprevious, hcontent.imp_left fun hover => hover.tick n⟩
  removed nonce r content hcontent :=
    (h.removed nonce r content hcontent).imp_left fun hover => hover.tick n
  owner nonce r htask hpresent :=
    (h.owner nonce r htask hpresent).imp_left fun hover => hover.tick n

theorem Inv.setWaiting (h : Inv expiry s) {waiting : Nat → Option (Capability × Request × Bool)}
    (hwaiting : ∀ v c r mutating, waiting v = some (c, r, mutating) →
      c.expires = expiry c.nonce ∧ Ranged c.expires) : Inv expiry { s with waiting := waiting } :=
  ⟨h.once, h.held, h.content, h.removed, h.owner, hwaiting, h.life⟩

theorem Inv.addFresh (h : Inv expiry s) (hnew : (nonce, r) ∉ s.fresh)
    (hstands : Stands expiry s (.effect nonce r) nonce) :
    Inv expiry { s with fresh := (nonce, r) :: s.fresh } where
  __ := h
  once := nodup_cons.mpr ⟨hnew, h.once⟩
  held other q hin := by
    rcases mem_cons.mp hin with heq | hin
    · obtain ⟨rfl, rfl⟩ := Prod.mk.inj heq
      exact .inr hstands
    · exact h.held other q hin

theorem inv_step {e : Event} (hstep : step e s = some s') (hcareful : Careful expiry e s)
    (h : Inv expiry s) : Inv expiry s' := by
  cases e with
  | tick n =>
    cases hstep
    exact h.tick n
  | check v c r mutating =>
    obtain ⟨-, rfl⟩ := of_guard hstep
    refine h.setWaiting fun u d q m hu => ?_
    split at hu
    · cases hu
      exact hcareful
    · exact h.waiting u d q m hu
  | reserve v fate =>
    rw [step] at hstep
    split at hstep
    · cases hstep
    next c r mutating hv =>
      cases hstep
      have hc := h.waiting v c r mutating hv
      have hprompt := hcareful.1 c r mutating hv
      have hreserved : Inv expiry (s.reserve c r mutating fate).1 := h.reserve hc mutating
      have hfresh := (unmoved_reserve s c r mutating fate).fresh
      have hwaiting : ∀ u d q m, (if u = v then none else s.waiting u) = some (d, q, m) →
          d.expires = expiry d.nonce ∧ Ranged d.expires := by
        intro u d q m hu
        split at hu
        · cases hu
        · exact h.waiting u d q m hu
      split
      next hboth =>
        obtain ⟨rfl, hreply⟩ := hboth
        obtain ⟨hnew, hstands⟩ := fresh_of_reserve h hc hprompt hreply
        rw [← hfresh] at hnew ⊢
        exact (hreserved.addFresh hnew hstands).setWaiting hwaiting
      · rw [← hfresh]
        exact hreserved.setWaiting hwaiting
  | complete c r result rewriting =>
    cases hstep
    exact h.complete hcareful
  | sweep skips =>
    cases hstep
    refine Inv.sweepLocked ?_ skips
    exact { h with }
  | restart life loss skips =>
    cases hstep
    exact h.restart life loss skips

theorem inv_start (expiry : Bytes → Int) (life : Bytes) (now : Int) : Inv expiry (start life now) where
  once := nodup_nil
  held _ _ hin := absurd hin not_mem_nil
  content _ _ _ hfile := by cases hfile
  removed _ _ _ hcontent := by cases hcontent
  owner _ _ _ hpresent := by
    rcases hpresent with h | h <;> exact absurd rfl h
  waiting _ _ _ _ hwaiting := by cases hwaiting
  life := newline_notMem_hexEncode life

/-- **At most one effect for a signed request.**  No request is reserved twice under a nonce,
and a repeat that is answered with bytes is answered with the result that was recorded for it. -/
theorem one_effect_per_request (expiry : Bytes → Int) (life : Bytes) (now : Int) (events : List Event)
    (s : Store) (hcareful : meets step (Careful expiry) events (start life now))
    (hrun : run step events (start life now) = some s) :
    s.fresh.Nodup ∧ ∀ v c r fate result, s.waiting v = some (c, r, true) →
      Careful expiry (.reserve v fate) s → (s.reserve c r true fate).2 = .kept result →
      result ≠ [] ∧ s.resultOf c.nonce r = some result := by
  have hinv : Inv expiry s :=
    run_inv_of_meets (I := Inv expiry) inv_step hcareful hrun
      (inv_start expiry life now)
  refine ⟨hinv.once, fun v c r fate result hv hreserve hkept => ?_⟩
  exact kept_of_reserve hinv (hinv.waiting v c r true hv) (hreserve.1 c r true hv) hreserve.2 hkept

/-- A capability from 0 to 100 seconds, a request under it, and a disk that does not fail. -/
def someCapability : Capability := ⟨replicate 32 0, 0, 100, 3600⟩

def someRequest : Request := ⟨ascii "task".toList, 0⟩

def noFailure : Fate := ⟨fun _ => false, .done, none, .done, none⟩

/-- A request that ran, with a result of one byte, and its repeat before the lock. -/
def repeated : List Event :=
  [.check 0 someCapability someRequest true, .reserve 0 noFailure,
    .complete someCapability someRequest [42] .done, .check 1 someCapability someRequest true]

theorem careful_repeated : meets step (Careful fun _ => 100) repeated (start [1] (50 * 10 ^ 9)) := by
  have hranged : Ranged someCapability.expires := ⟨by decide, by decide⟩
  refine ⟨⟨rfl, hranged⟩, fun t ht => ?_⟩
  obtain rfl := Option.mem_some.mp ht
  refine ⟨⟨fun c r m h => ?_, fun n h => by cases h⟩, fun t ht => ?_⟩
  · cases h
    decide
  obtain rfl := Option.mem_some.mp ht
  refine ⟨⟨⟨rfl, hranged⟩, .inr rfl, by decide⟩, fun t ht => ?_⟩
  exact ⟨⟨rfl, hranged⟩, fun _ _ => trivial⟩

theorem one_effect_per_request_repeated :
    ∃ s, run step repeated (start [1] (50 * 10 ^ 9)) = some s ∧
      s.fresh = [(someCapability.nonce, someRequest)] ∧ s.fresh.Nodup ∧
      (s.reserve someCapability someRequest true noFailure).2 = .kept [42] ∧
      s.resultOf someCapability.nonce someRequest = some [42] := by
  refine ⟨_, rfl, rfl, ?_, rfl, ?_⟩
  · exact (one_effect_per_request (fun _ => 100) [1] (50 * 10 ^ 9) repeated _ careful_repeated rfl).1
  · refine ((one_effect_per_request (fun _ => 100) [1] (50 * 10 ^ 9) repeated _ careful_repeated rfl).2 1
      someCapability someRequest noFailure [42] rfl ⟨fun c r m h => ?_, fun n h => by cases h⟩ rfl).2
    cases h
    decide

/-- Two calls pass the clock check in the last second of the capability, and the second of them
has the lock a minute after the first: the sweep has taken the record, and the request is fresh again. -/
theorem fresh_again_behind_lock :
    (run step [.check 0 someCapability someRequest true, .check 1 someCapability someRequest true,
        .reserve 0 noFailure, .tick (60 * 10 ^ 9), .reserve 1 noFailure]
          (start [1] (100 * 10 ^ 9))).map fresh =
      some [(someCapability.nonce, someRequest), (someCapability.nonce, someRequest)] := by
  decide

end Store

end Flotestro.HelperCap.Replay
