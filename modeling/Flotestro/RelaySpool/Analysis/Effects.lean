import Flotestro.RelaySpool.Analysis.Encoding
import Flotestro.RelaySpool.Analysis.Frames

/-!
# What the primitive operations change

A command either leaves the index and the log as they are (`QuietMemory`, `QuietDisk`: every
question, every mark, and a roll), or it is one of the few that change them: a record written,
a tombstone written, an entry copied, a segment removed, or a start of the process.  This module says which, once; the invariants are
derived from it.  The states such a command leaves have names: `Spool.wrote`,
`Spool.entombed`, `Spool.copied`, and `Broken` for a write that failed.
-/

set_option autoImplicit false

namespace Flotestro.RelaySpool

open Library

variable {env : Env} {s s' : Spool}

theorem Spool.content_congr (h : s'.files = s.files) (g : Nat) : s'.content g = s.content g := by
  rw [Spool.content, h, Spool.content]

variable {g : Nat} {r : Record} {framed : Bytes}

theorem mem_files_of_content_ne_nil (h : s.content g ≠ []) : g ∈ s.files := by
  by_contra hg
  rw [Spool.content, AList.lookup_eq_none.mpr hg] at h
  exact h rfl

theorem Spool.lookup_files_of_mem (h : g ∈ s.files) : s.files.lookup g = some (s.content g) := by
  obtain ⟨c, hc⟩ := Option.isSome_iff_exists.mp (AList.lookup_isSome.mpr h)
  rw [Spool.content, hc]
  rfl

theorem content_insert {c : Bytes} (h : s'.files = s.files.insert g c) (g' : Nat) :
    s'.content g' = if g' = g then c else s.content g' := by
  by_cases hg : g' = g
  · subst hg
    simp [Spool.content, h]
  · simp [Spool.content, h, hg]

theorem content_erase (h : s'.files = s.files.erase g) (g' : Nat) :
    s'.content g' = if g' = g then [] else s.content g' := by
  by_cases hg : g' = g
  · subst hg
    simp [Spool.content, h]
  · simp [Spool.content, h, hg]

@[simp] theorem logOf_nil : logOf [] = [] := rfl

theorem log_eq_of_content (h : ∀ g, s'.content g = s.content g) : s'.log = s.log := by
  funext g
  rw [Spool.log, h, Spool.log]

theorem log_erase (h : s'.files = s.files.erase g) : s'.log = s.log.drop g := by
  funext g'
  by_cases hg : g' = g
  · subst hg
    simp [Spool.log, content_erase h, Log.drop]
  · simp [Spool.log, content_erase h, Log.drop, hg]

theorem log_extend {kind : UInt8} {body : Bytes} (hc : Clean (s.content g))
    (hmax : body.length ≤ maxRecordBytes)
    (h : s'.files = s.files.insert g (s.content g ++ frame kind body)) : s'.log = s.log.write g
      (itemOf ⟨kind, body, (s.content g).length, headerSize + body.length⟩).toList := by
  funext g'
  by_cases hg : g' = g
  · subst hg
    have hv := (walk_append_frame kind hc hmax).1
    simp only [Spool.log, content_insert h, if_true, Log.write, Function.update_self, logOf, hv,
      List.filterMap_append]
    congr 1
  · simp [Spool.log, content_insert h, Log.write, hg]

/-- An entry without the marks of its delivery. -/
def Entry.kept (e : Entry) : Entry := { e with sentAt := none, firstSentAt := none }

section
variable (env) (r : Record) (size segment offset : Nat)

@[simp] theorem entryOf_id : (entryOf env r size segment offset).id = r.id := rfl
@[simp] theorem entryOf_segment : (entryOf env r size segment offset).segment = segment := rfl

end

@[simp] theorem kept_entryOf (env : Env) (r : Record) (size segment offset : Nat) :
    (entryOf env r size segment offset).kept = entryOf env r size segment offset := rfl

/-! ## Quiet commands -/

/-- The index is as it was; a segment without entries may have been added. -/
structure QuietMemory (s s' : Spool) : Prop where
  options : s'.options = s.options
  index : s'.index = s.index
  byHost : s'.byHost = s.byHost
  nextPtr : s'.nextPtr = s.nextPtr
  live : s'.live = s.live
  heap : ∀ p, (s'.heap p).kept = (s.heap p).kept
  nextID : s.nextID ≤ s'.nextID
  segments : s'.segments = s.segments ∨
    s.nextID < s'.nextID ∧ s'.segments = s.segments.insert s'.nextID ⟨s'.nextID, 0, 0⟩
  active : ∀ a', s'.active = some a' →
    (∃ a, s.active = some a ∧ a'.id = a.id ∧ a'.size = a.size) ∨
      s.nextID < s'.nextID ∧ a'.id = s'.nextID ∧ a'.size = 0 ∧ a'.id ∈ s'.segments

/-- The log is as it was; a file without a frame may have been added. -/
structure QuietDisk (s s' : Spool) : Prop where
  aliases : s'.aliases = s.aliases
  history : s'.history = s.history
  content : ∀ g, s'.content g = s.content g
  files : ∀ g ∈ s.files, g ∈ s'.files
  files_new : ∀ g ∈ s'.files, g ∈ s.files ∨ s.nextID < s'.nextID ∧ g = s'.nextID
  active_file : ∀ a', s'.active = some a' →
    (∃ a, s.active = some a ∧ a'.id = a.id) ∨ a'.id ∈ s'.files ∧ s'.content a'.id = []

section
variable (h : QuietMemory s s') (p : Nat)
include h

theorem QuietMemory.id : (s'.heap p).id = (s.heap p).id := by
  simpa [Entry.kept] using congrArg Entry.id (h.heap p)

theorem QuietMemory.hostID : (s'.heap p).hostID = (s.heap p).hostID := by
  simpa [Entry.kept] using congrArg Entry.hostID (h.heap p)

theorem QuietMemory.size : (s'.heap p).size = (s.heap p).size := by
  simpa [Entry.kept] using congrArg Entry.size (h.heap p)

theorem QuietMemory.segment : (s'.heap p).segment = (s.heap p).segment := by
  simpa [Entry.kept] using congrArg Entry.segment (h.heap p)

theorem QuietMemory.pointers : s'.pointers = s.pointers := by
  rw [Spool.pointers, h.index, Spool.pointers]

end

theorem QuietMemory.refl (s : Spool) : QuietMemory s s :=
  ⟨rfl, rfl, rfl, rfl, rfl, fun _ => rfl, le_refl _, .inl rfl,
    fun a' h => .inl ⟨a', h, rfl, rfl⟩⟩

theorem QuietDisk.refl (s : Spool) : QuietDisk s s :=
  ⟨rfl, rfl, fun _ => rfl, fun _ h => h, fun _ h => .inl h, fun a' h => .inl ⟨a', h, rfl⟩⟩

/-- A command that leaves all of it in place but the marks, the counters, and
whether the active file is open. -/
theorem quiet_of_eq (hoptions : s'.options = s.options) (hindex : s'.index = s.index)
    (hbyHost : s'.byHost = s.byHost) (hnextPtr : s'.nextPtr = s.nextPtr)
    (hlive : s'.live = s.live) (hheap : ∀ p, (s'.heap p).kept = (s.heap p).kept)
    (hnextID : s'.nextID = s.nextID) (hsegments : s'.segments = s.segments)
    (haliases : s'.aliases = s.aliases) (hhistory : s'.history = s.history)
    (hfiles : s'.files = s.files) (hactive : ∀ a', s'.active = some a' →
      ∃ a, s.active = some a ∧ a'.id = a.id ∧ a'.size = a.size) :
    QuietMemory s s' ∧ QuietDisk s s' := by
  refine ⟨⟨hoptions, hindex, hbyHost, hnextPtr, hlive, hheap, hnextID.ge, .inl hsegments,
    fun a' h => .inl (hactive a' h)⟩, ⟨haliases, hhistory,
    Spool.content_congr hfiles, fun g h => hfiles ▸ h, fun g h => .inl (hfiles ▸ h),
    fun a' h => .inl ?_⟩⟩
  obtain ⟨a, ha, hid, -⟩ := hactive a' h
  exact ⟨a, ha, hid⟩

theorem quiet_tick (s : Spool) (t : Nat) :
    QuietMemory s { s with tick := t } ∧ QuietDisk s { s with tick := t } :=
  quiet_of_eq rfl rfl rfl rfl rfl (fun _ => rfl) rfl rfl rfl rfl rfl fun a' h => ⟨a', h, rfl, rfl⟩

/-- A quiet command behind one that left the segment numbers alone. -/
theorem QuietMemory.trans {t : Spool} (h : QuietMemory s t) (hn : t.nextID = s.nextID)
    (h' : QuietMemory t s') : QuietMemory s s' where
  options := h'.options.trans h.options
  index := h'.index.trans h.index
  byHost := h'.byHost.trans h.byHost
  nextPtr := h'.nextPtr.trans h.nextPtr
  live := h'.live.trans h.live
  heap p := (h'.heap p).trans (h.heap p)
  nextID := hn ▸ h'.nextID
  segments := by
    have hs : t.segments = s.segments := h.segments.resolve_right fun h => by omega
    rw [← hs, ← hn]
    exact h'.segments
  active a' ha' := by
    rcases h'.active a' ha' with ⟨a, ha, hid, hsize⟩ | hnew
    · rcases h.active a ha with ⟨a₀, ha₀, hid₀, hsize₀⟩ | ⟨hlt, -⟩
      · exact .inl ⟨a₀, ha₀, hid.trans hid₀, hsize.trans hsize₀⟩
      · omega
    · exact .inr (hn ▸ hnew)

theorem QuietDisk.trans {t : Spool} (h : QuietDisk s t) (hn : t.nextID = s.nextID)
    (h' : QuietDisk t s') : QuietDisk s s' where
  aliases := h'.aliases.trans h.aliases
  history := h'.history.trans h.history
  content g := (h'.content g).trans (h.content g)
  files g hg := h'.files g (h.files g hg)
  files_new g hg := by
    rcases h'.files_new g hg with hg | hnew
    · exact .inl ((h.files_new g hg).resolve_right fun h => by omega)
    · exact .inr (hn ▸ hnew)
  active_file a' ha' := by
    rcases h'.active_file a' ha' with ⟨a, ha, hid⟩ | hnew
    · rcases h.active_file a ha with ⟨a₀, ha₀, hid₀⟩ | ⟨hmem, hnil⟩
      · exact .inl ⟨a₀, ha₀, hid.trans hid₀⟩
      · exact .inr ⟨hid ▸ h'.files _ hmem, by rw [hid, h'.content, hnil]⟩
    · exact .inr hnew

theorem closeActive_quiet (env : Env) (s : Spool) :
    (QuietMemory s (closeActive env s).2 ∧ QuietDisk s (closeActive env s).2) ∧
      (closeActive env s).2.nextID = s.nextID := by
  unfold closeActive
  split
  · exact ⟨⟨.refl s, .refl s⟩, rfl⟩
  rename_i a ha
  split
  · refine ⟨quiet_of_eq rfl rfl rfl rfl rfl (fun _ => rfl) rfl rfl rfl rfl rfl ?_, rfl⟩
    intro a' ha'
    exact ⟨a, ha, by cases ha'; exact ⟨rfl, rfl⟩⟩
  · exact ⟨⟨.refl s, .refl s⟩, rfl⟩

theorem content_insert_nil (hg : g ∉ s.files) (h : s'.files = s.files.insert g []) (g' : Nat) :
    s'.content g' = s.content g' := by
  rw [content_insert h]
  split
  next h' =>
    rw [h', Spool.content, AList.lookup_eq_none.mpr hg]
    rfl
  · rfl

theorem createSegment_quiet (env : Env) (s : Spool) :
    QuietMemory s (createSegment env { s with nextID := s.nextID + 1 }).2 ∧
      QuietDisk s (createSegment env { s with nextID := s.nextID + 1 }).2 := by
  unfold createSegment
  split
  · refine ⟨⟨rfl, rfl, rfl, rfl, rfl, fun _ => rfl, Nat.le_succ _, .inl rfl,
      fun a' h => .inl ⟨a', h, rfl, rfl⟩⟩, ⟨rfl, rfl, fun _ => rfl, fun _ h => h,
      fun _ h => .inl h, fun a' h => .inl ⟨a', h, rfl⟩⟩⟩
  next hnew =>
    have hfresh : s.nextID + 1 ∉ s.files := fun h => hnew (.inl h)
    split
    · refine ⟨⟨rfl, rfl, rfl, rfl, rfl, fun _ => rfl, Nat.le_succ _, .inl rfl,
        fun a' h => .inl ⟨a', h, rfl, rfl⟩⟩, ⟨rfl, rfl,
        content_insert_nil hfresh rfl, fun g hg => (AList.mem_insert _).mpr (.inr hg),
        fun g hg => ?_, fun a' h => .inl ⟨a', h, rfl⟩⟩⟩
      rcases (AList.mem_insert _).mp hg with rfl | hg
      · exact .inr ⟨Nat.lt_succ_self _, rfl⟩
      · exact .inl hg
    · refine ⟨⟨rfl, rfl, rfl, rfl, rfl, fun _ => rfl, Nat.le_succ _,
        .inr ⟨Nat.lt_succ_self _, rfl⟩, fun a' h => .inr ?_⟩, ⟨rfl, rfl,
        content_insert_nil hfresh rfl, fun g hg => (AList.mem_insert _).mpr (.inr hg),
        fun g hg => ?_, fun a' h => .inr ?_⟩⟩
      · cases h
        exact ⟨Nat.lt_succ_self _, rfl, rfl, (AList.mem_insert _).mpr (.inl rfl)⟩
      · rcases (AList.mem_insert _).mp hg with rfl | hg
        · exact .inr ⟨Nat.lt_succ_self _, rfl⟩
        · exact .inl hg
      · cases h
        refine ⟨(AList.mem_insert _).mpr (.inl rfl), ?_⟩
        rw [content_insert rfl, if_pos rfl]

theorem rollLocked_quiet (env : Env) (s : Spool) :
    QuietMemory s (rollLocked env s).2 ∧ QuietDisk s (rollLocked env s).2 := by
  obtain ⟨⟨hm, hd⟩, hn⟩ := closeActive_quiet env s
  unfold rollLocked
  split
  next e t heq =>
    rw [heq] at hm hd
    exact ⟨hm, hd⟩
  next t heq =>
    rw [heq] at hm hd hn
    obtain ⟨hm', hd'⟩ := createSegment_quiet env t
    exact ⟨hm.trans hn hm', hd.trans hn hd'⟩

theorem syncActive_state (env : Env) (s : Spool) :
    (syncActive env s).2 = s ∨ (syncActive env s).2 = s.next := by
  unfold syncActive
  repeat' split
  · exact .inl rfl
  · exact .inr rfl
  · exact .inr rfl

/-- An update of one entry keeps what the new entry has in common with the old one. -/
theorem update_field {α : Type} (f : Entry → α) (heap : Nat → Entry) (p : Nat) {e : Entry}
    (h : f e = f (heap p)) (q : Nat) : f (Function.update heap p e q) = f (heap q) := by
  by_cases hq : q = p
  · rw [hq, Function.update_self, h]
  · rw [Function.update_of_ne hq]

/-- The commands that change neither the index nor the log. -/
def Cmd.quiet : Cmd → Bool
  | .get | .note _ | .sent _ _ | .unsent _ | .roll | .sync | .close | .read _ | .freeBytes | .now
  | .iterate _ | .newID => true
  | .writeRecord _ | .entomb _ | .settle _ | .compactOlder | .openSpool => false

theorem step_quiet (env : Env) (c : Cmd) (s : Spool) (hc : c.quiet = true) :
    QuietMemory s (step env c s).2 ∧ QuietDisk s (step env c s).2 := by
  cases c with
  | get => exact ⟨.refl s, .refl s⟩
  | note n =>
    cases n with
    | closed =>
      exact quiet_of_eq rfl rfl rfl rfl rfl (fun _ => rfl) rfl rfl rfl rfl rfl
        fun a' h => by cases h
    | _ =>
      exact quiet_of_eq rfl rfl rfl rfl rfl (fun _ => rfl) rfl rfl rfl rfl rfl
        fun a' h => ⟨a', h, rfl, rfl⟩
  | sent p now | unsent p =>
    exact quiet_of_eq rfl rfl rfl rfl rfl (update_field Entry.kept s.heap p (by rfl)) rfl rfl rfl rfl rfl
      fun a' h => ⟨a', h, rfl, rfl⟩
  | roll => exact rollLocked_quiet env s
  | sync =>
    rcases syncActive_state env s with h | h <;> simp only [step, h]
    · exact ⟨.refl s, .refl s⟩
    · exact quiet_tick s _
  | close => exact (closeActive_quiet env s).1
  | read p | freeBytes | now | iterate l | newID => exact quiet_tick s _
  | _ => cases hc

/-! ## Reading a record back -/

/-- A record that is read back decodes from a frame within the bound. -/
theorem recordAt_eq_ok_iff {content : Bytes} {offset : Nat} {id : UUID} :
    recordAt content offset id = .ok r ↔ r.id = id ∧ ∃ body rest,
      readFrame (content.drop offset) = .frame kindRecord body rest ∧ decode body = some r := by
  constructor
  · intro h
    unfold recordAt at h
    split at h
    · cases h
    · cases h
    rename_i kind body rest hf
    split at h
    · cases h
    rename_i hkind
    split at h
    · cases h
    rename_i r' hr'
    split at h
    · cases h
    next hid =>
      cases h
      exact ⟨not_not.mp hid, body, rest, by rw [hf, not_not.mp hkind], hr'⟩
  · rintro ⟨hid, body, rest, hf, hr⟩
    simp [recordAt, hf, hr, hid]

theorem readLocked_ok {p : Nat} (h : (readLocked env p s).1 = .ok r) :
    (s.heap p).segment ∈ s.files ∧
      recordAt (s.content (s.heap p).segment) (s.heap p).offset (s.heap p).id = .ok r := by
  unfold readLocked at h
  split at h
  · cases h
  rename_i content hc
  split at h
  · cases h
  · refine ⟨AList.lookup_isSome.mp (by rw [hc]; rfl), ?_⟩
    rw [Spool.content, hc]
    exact h

theorem recordAt_ok_bounds {content : Bytes} {offset : Nat} {id : UUID}
    (h : recordAt content offset id = .ok r) :
    r.id = id ∧ r.Encodable ∧ r.bodySize ≤ maxRecordBytes := by
  obtain ⟨hid, body, rest, hf, hr⟩ := recordAt_eq_ok_iff.mp h
  have hmax := (readFrame_eq_frame_iff.mp hf).1
  have hsize := bodySize_le_of_decode hr
  exact ⟨hid, (decode_eq_some_iff.mp hr).1, hsize.trans hmax⟩

/-- No write fails with a part of its bytes in the file. -/
def Env.NoShortWrite (env : Env) : Prop := ∀ t n, env.fault t = some n → n = 0

theorem failing_noShortWrite (tick : Nat) : (failing tick 0).NoShortWrite := by
  intro t n hn
  have hn' : (if t = tick then some 0 else none) = some n := hn
  split at hn'
  · exact (Option.some.inj hn').symm
  · cases hn'

/-- A write that failed.  Memory is as it was, and a strict part of the frame may
stand at the end of the active file. -/
structure Broken (env : Env) (framed : Bytes) (s s' : Spool) : Prop where
  later : s.tick ≤ s'.tick
  same : s' = { s with tick := s'.tick, files := s'.files }
  files : s'.files = s.files ∨ ∃ a n, s.active = some a ∧ n < framed.length ∧
    s'.files = s.files.insert a.id (s.content a.id ++ framed.take n)
  whole : env.NoShortWrite → ∀ g, s'.content g = s.content g

theorem Broken.tick (env : Env) (framed : Bytes) (s : Spool) {t : Nat} (ht : s.tick ≤ t) :
    Broken env framed s { s with tick := t } :=
  ⟨ht, rfl, .inl rfl, fun _ _ => rfl⟩

theorem Broken.memory (h : Broken env framed s s') : QuietMemory s s' := by
  rw [h.same]
  exact { QuietMemory.refl s with }

/-- An append goes through, or it fails and nothing moves but what a short write
left in the file. -/
theorem appendActive_cases (env : Env) (hframed : 0 < framed.length) (s : Spool) :
    (∃ a, s.active = some a ∧ a.opened = true ∧ env.fault s.tick = none ∧
      appendActive env framed s = (.ok a.size, s.next.extendActive a framed)) ∨
    ∃ s', appendActive env framed s = (.error .io, s') ∧ Broken env framed s s' := by
  unfold appendActive
  split
  · exact .inr ⟨s, rfl, .tick env framed s (le_refl _)⟩
  rename_i a ha
  split
  next hopened =>
    split
    next n hn =>
      refine .inr ⟨_, rfl, Nat.le_succ _, rfl, .inr ⟨a, _, ha, ?_, rfl⟩, fun hwhole g => ?_⟩
      · omega
      · have hnone : framed.take (min n (framed.length - 1)) = [] := by
          rw [hwhole _ _ hn, Nat.zero_min, List.take_zero]
        rw [content_insert rfl, hnone, List.append_nil]
        split
        next hg =>
          rw [hg]
        · rfl
    next hn =>
      exact .inl ⟨a, ha, hopened, hn, rfl⟩
  · exact .inr ⟨s, rfl, .tick env framed s (le_refl _)⟩

theorem appendActive_ready {a : Segment} (ha : s.active = some a) (hopened : a.opened = true)
    (hfault : env.fault s.tick = none) :
    appendActive env framed s = (.ok a.size, s.next.extendActive a framed) := by
  simp [appendActive, ha, hopened, hfault]

theorem syncActive_ready {a : Segment} (ha : s.active = some a) (hopened : a.opened = true)
    (hfault : env.fault s.tick = none) : syncActive env s = (.ok (), s.next) := by
  rw [syncActive, ha]
  exact if_pos ⟨hopened, hfault⟩

theorem length_frame_pos (kind : UInt8) (body : Bytes) : 0 < (frame kind body).length := by
  simp [headerSize]

def Spool.hand (s : Spool) (r : Record) : Spool := { s with history := s.history ++ [r] }

def Spool.wrote (env : Env) (s : Spool) (a : Segment) (r : Record) : Spool :=
  (((s.hand r).next.extendActive a (frame kindRecord r.encode)).accountActive 1).addEntry
    (entryOf env r (frame kindRecord r.encode).length a.id a.size)

theorem hand_quiet (s : Spool) (r : Record) : QuietMemory s (s.hand r) :=
  { QuietMemory.refl s with }

theorem writeRecord_cases (env : Env) (r : Record) (s : Spool) :
    (∃ a, s.active = some a ∧ a.opened = true ∧ env.fault s.tick = none ∧
      writeRecord env r s = (.ok (), s.wrote env a r)) ∨
    ∃ s', writeRecord env r s = (.error .io, s') ∧
      Broken env (frame kindRecord r.encode) (s.hand r) s' := by
  unfold writeRecord
  rcases appendActive_cases env (length_frame_pos kindRecord r.encode) (s.hand r) with
    ⟨a, ha, hopened, hfault, heq⟩ | ⟨s', heq, hbroken⟩
  · refine .inl ⟨a, ha, hopened, hfault, ?_⟩
    rw [Spool.hand] at heq
    simp only [heq]
    rfl
  · refine .inr ⟨s', ?_, hbroken⟩
    rw [Spool.hand] at heq
    simp [heq]

/-- The spool after the tombstone of an entry was written. -/
def Spool.entombed (s : Spool) (a : Segment) (p : Nat) : Spool :=
  let t := ({ (s.next.extendActive a (frame kindTombstone (s.heap p).id.toList)).accountActive 0
    with dirty := true }).dropEntry p
  { t with segments := modify t.segments (s.heap p).segment fun st =>
      { st with live := st.live - 1 } }

theorem entomb_cases (env : Env) (p : Nat) (s : Spool) :
    (∃ a, s.active = some a ∧ a.opened = true ∧ env.fault s.tick = none ∧
      entomb env p s = (.ok (), s.entombed a p)) ∨ ∃ s', entomb env p s = (.error .io, s') ∧
      Broken env (frame kindTombstone (s.heap p).id.toList) s s' := by
  unfold entomb
  rcases appendActive_cases env (length_frame_pos kindTombstone (s.heap p).id.toList) s with
    ⟨a, ha, hopened, hfault, heq⟩ | ⟨s', heq, hbroken⟩
  · refine .inl ⟨a, ha, hopened, hfault, ?_⟩
    simp only [heq]
    rfl
  · refine .inr ⟨s', ?_, hbroken⟩
    simp [heq]

theorem settle_cases (env : Env) (g : Nat) (s : Spool) :
    (∃ st, s.segments.lookup g = some st ∧ st.live ≤ 0 ∧ s.activeID ≠ some g ∧
      settle env g s = (.ok (), s.next.removeSegment g)) ∨
    (settle env g s).2 = s ∨ (settle env g s).2 = s.next := by
  unfold settle
  split
  · exact .inr (.inl rfl)
  rename_i st hst
  split
  next hlive =>
    split
    · exact .inr (.inr rfl)
    · exact .inl ⟨st, hst, hlive.1, hlive.2, rfl⟩
  · exact .inr (.inl rfl)

def Spool.copied (s : Spool) (a : Segment) (p : Nat) (r : Record) : Spool :=
  let t := { s with tick := s.tick + 2 }.next.extendActive a (frame kindRecord r.encode)
  { t with
    heap := Function.update s.heap p
      { s.heap p with segment := a.id, offset := a.size } }.accountActive 1

/-- A failed write of a frame within the bound. -/
def Failed (env : Env) (s s' : Spool) : Prop :=
  ∃ kind body, body.length ≤ maxRecordBytes ∧ Broken env (frame kind body) s s'

theorem Failed.tick (env : Env) (s : Spool) {t : Nat} (ht : s.tick ≤ t) :
    Failed env s { s with tick := t } :=
  ⟨kindRecord, [], Nat.zero_le _, .tick env _ s ht⟩

theorem copyRecord_cases (env : Env) (p : Nat) (s : Spool) :
    (∃ a r, s.active = some a ∧ a.opened = true ∧ env.fault (s.tick + 2) = none ∧
      (readLocked env p s).1 = .ok r ∧ copyRecord env p s = (.ok (), s.copied a p r)) ∨
    ∃ e s', copyRecord env p s = (.error e, s') ∧ Failed env s s' := by
  cases hr : (readLocked env p s).1 with
  | error e =>
    refine .inr ⟨e, { s with tick := s.tick + 2 }, ?_, .tick env s (Nat.le_add_right _ _)⟩
    have hread : readLocked env p s = (.error e, { s with tick := s.tick + 2 }) :=
      Prod.ext hr rfl
    simp [copyRecord, hread]
  | ok r =>
    have hread : readLocked env p s = (.ok r, { s with tick := s.tick + 2 }) := Prod.ext hr rfl
    have hmax : r.encode.length ≤ maxRecordBytes :=
      r.length_encode.le.trans (recordAt_ok_bounds (readLocked_ok hr).2).2.2
    rcases appendActive_cases env (length_frame_pos kindRecord r.encode)
      { s with tick := s.tick + 2 } with ⟨a, ha, hopened, hfault, heq⟩ | ⟨s', heq, hbroken⟩
    · refine .inl ⟨a, r, ha, hopened, hfault, rfl, ?_⟩
      simp only [copyRecord, hread, heq]
      rfl
    · refine .inr ⟨.io, s', ?_, kindRecord, r.encode, hmax, ?_⟩
      · simp [copyRecord, hread, heq]
      · exact { hbroken with later := (Nat.le_add_right _ _).trans hbroken.later }

end Flotestro.RelaySpool
