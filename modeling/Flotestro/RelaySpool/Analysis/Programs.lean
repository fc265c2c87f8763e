import Flotestro.RelaySpool.Analysis.Steps

/-!
# What the functions of the spool do, one after the other

The runs of the locked functions as equations and as facts about their answers: which writes an
accepted record went through, and what a function leaves alone on the way.
-/

set_option autoImplicit false

namespace Flotestro.RelaySpool

open Library
open Prog (along_pure along_bind exec_bind along_issue along_issue_bind)

variable {env : Env} {s s' : Spool}

@[simp] theorem exec_getSpool (env : Env) (s : Spool) :
    getSpool.exec (step env) s = (s, s) := rfl

@[simp] theorem exec_note (env : Env) (n : Note) (s : Spool) :
    (note n).exec (step env) s = ((), n.apply s) := rfl

@[simp] theorem exec_command (env : Env) (c : Cmd) (s : Spool) :
    (issue c).exec (step env) s = step env c s := rfl

theorem exec_roomLocked (env : Env) (priority : UInt8) (size : Nat) (s : Spool) :
    (roomLocked priority size).exec (step env) s =
      if s.live + size > s.options.limit priority then (some (refusal priority), s)
      else if s.options.clears (env.free s.tick) size then (none, s.next)
      else (some (refusal priority), s.next) := by
  unfold roomLocked
  rw [exec_bind, exec_getSpool]
  split
  · rfl
  · show Prog.exec (step env) (if s.options.clears (env.free s.tick) size then _ else _) s.next = _
    split <;> rfl

/-- A record that names its site and its identifier is taken as it is. -/
theorem exec_stampRecord (env : Env) {r : Record} (hsite : r.site ≠ [])
    (hid : r.id.toList ≠ List.replicate 16 0) (s : Spool) :
    (stampRecord r).exec (step env) s = (r, s) := by
  unfold stampRecord
  simp only [if_neg hsite, if_neg hid]
  rfl

theorem exec_admitRecord_fits {r : Record} (hroom : s.live + r.size ≤ s.options.limit r.priority)
    (hfree : s.options.clears (env.free s.tick) r.size = true) :
    (admitRecord r).exec (step env) s = (none, s.next) := by
  unfold admitRecord
  rw [exec_bind, exec_roomLocked, if_neg (not_lt.mpr hroom), if_pos hfree]
  rfl

/-! ## Writing a record -/

theorem exec_ensureActive (env : Env) (s : Spool) :
    ensureActive.exec (step env) s =
      if ∀ a ∈ s.active, (a.size : Int) ≥ s.options.segmentBytes then rollLocked env s
      else (.ok (), s) := by
  unfold ensureActive
  rw [exec_bind, exec_getSpool]
  cases ha : s.active with
  | none => rfl
  | some a =>
    simp only [Option.mem_some_iff, forall_eq']
    split <;> rfl

theorem exec_writeLocked (env : Env) (r : Record) (s : Spool) :
    (writeLocked r).exec (step env) s =
      match ensureActive.exec (step env) s with
      | (.error e, t) => (.error e, t)
      | (.ok _, t) => writeRecord env r t := by
  unfold writeLocked
  rw [exec_bind]
  cases ensureActive.exec (step env) s with
  | mk result t => cases result <;> rfl

theorem exec_keepRecord (env : Env) (r : Record) (s : Spool) :
    (keepRecord r).exec (step env) s =
      match (writeLocked r).exec (step env) s with
      | (.error e, t) => (notKeptLocked r e).exec (step env) t
      | (.ok _, t) => (flushRecord r).exec (step env) t := by
  unfold keepRecord
  rw [exec_bind]
  cases (writeLocked r).exec (step env) s with
  | mk result t => cases result <;> rfl

theorem notKeptLocked_some (env : Env) (r : Record) (e : Err) (s : Spool) :
    answer env (notKeptLocked r e) s = some e := by
  unfold answer notKeptLocked
  split <;> rfl

theorem along_flushRecord {P : Cmd → Spool → Prop} (hP : ∀ c s, c.quiet = true → P c s)
    (r : Record) (s : Spool) : (flushRecord r).Along (step env) P s := by
  unfold flushRecord
  split
  · refine along_issue_bind (hP _ _ rfl) ?_
    split
    · exact along_issue_bind (hP _ _ rfl) (along_pure _ _)
    · exact along_issue_bind (hP _ _ rfl) (along_issue_bind (hP _ _ rfl) (along_pure _ _))
  · exact along_issue_bind (hP _ _ rfl) (along_pure _ _)

/-- The commands of a deletion. -/
def Cmd.deletes : Cmd → Bool
  | .get | .roll | .entomb _ | .settle _ | .compactOlder => true
  | _ => false

section
variable {P : Cmd → Spool → Prop} (hP : ∀ c s, c.deletes = true → P c s)
include hP

theorem along_ensureActive (s : Spool) : ensureActive.Along (step env) P s := by
  refine along_issue_bind (hP _ _ rfl) ?_
  split
  · exact (along_issue _ _).mpr (hP _ _ rfl)
  · split
    · exact (along_issue _ _).mpr (hP _ _ rfl)
    · exact along_pure _ _

theorem along_compactLocked (s : Spool) : compactLocked.Along (step env) P s := by
  refine along_issue_bind (hP _ _ rfl) ?_
  simp only
  generalize (if (_ : Int) > _ then _ else _ : Int) = allowance
  split
  · exact along_pure _ _
  · refine along_issue_bind (hP _ _ rfl) ?_
    split
    · exact along_pure _ _
    · exact (along_issue _ _).mpr (hP _ _ rfl)

theorem along_deleteLocked (p : Nat) (s : Spool) : (deleteLocked p).Along (step env) P s := by
  refine along_issue_bind (hP _ _ rfl) ?_
  split
  · exact along_pure _ _
  rw [along_bind]
  refine ⟨along_ensureActive hP _, ?_⟩
  split
  · exact along_pure _ _
  refine along_issue_bind (hP _ _ rfl) ?_
  split
  · exact along_pure _ _
  refine along_issue_bind (hP _ _ rfl) (along_issue_bind (hP _ _ rfl) ?_)
  split
  · exact along_pure _ _
  · exact along_compactLocked hP _

theorem along_coalesceEach (l : List Nat) (s : Spool) : (coalesceEach l).Along (step env) P s := by
  induction l generalizing s with
  | nil => exact along_pure _ _
  | cons p rest ih =>
    refine along_issue_bind (hP _ _ rfl) ?_
    split
    · rw [along_bind]
      exact ⟨along_deleteLocked hP p _, ih _⟩
    · exact ih _

theorem along_coalesceInventoryLocked (hostID : Bytes) (s : Spool) :
    (coalesceInventoryLocked hostID).Along (step env) P s :=
  along_issue_bind (hP _ _ rfl) (along_coalesceEach hP _ _)

end

/-! ## Admitting a record -/

/-- The commands of an admission. -/
def Cmd.admits : Cmd → Bool
  | .freeBytes | .iterate _ | .note .dropped => true
  | c => c.deletes

theorem Cmd.admits_of_deletes {c : Cmd} (hc : c.deletes = true) : c.admits = true := by
  cases c <;> first | exact hc | cases hc

section
variable {P : Cmd → Spool → Prop} (hP : ∀ c s, c.admits = true → P c s)
include hP

theorem along_roomLocked (priority : UInt8) (size : Nat) (s : Spool) :
    (roomLocked priority size).Along (step env) P s := by
  refine along_issue_bind (hP _ _ rfl) ?_
  split
  · exact along_pure _ _
  · refine along_issue_bind (hP _ _ rfl) ?_
    split
    · exact along_pure _ _
    · exact along_pure _ _

theorem along_evictEach (size : Nat) (l : List Nat) (evicted : Bool) (s : Spool) :
    (evictEach size l evicted).Along (step env) P s := by
  induction l generalizing evicted s with
  | nil => exact along_pure _ _
  | cons p rest ih =>
    unfold evictEach
    rw [along_bind]
    refine ⟨along_roomLocked hP _ _ _, ?_⟩
    split
    · exact along_pure _ _
    rw [along_bind]
    refine ⟨along_deleteLocked (fun c t hc => hP c t (Cmd.admits_of_deletes hc)) p _, ?_⟩
    split
    · exact along_pure _ _
    · exact along_issue_bind (hP _ _ rfl) (ih _ _)

theorem along_evictOldestMetricLocked (size : Nat) (s : Spool) :
    (evictOldestMetricLocked size).Along (step env) P s :=
  along_issue_bind (hP _ _ rfl) (along_issue_bind (hP _ _ rfl) (along_evictEach hP _ _ _ _))

theorem along_admitRecord (r : Record) (s : Spool) : (admitRecord r).Along (step env) P s := by
  unfold admitRecord
  rw [along_bind]
  refine ⟨along_roomLocked hP _ _ _, ?_⟩
  split
  · exact along_pure _ _
  split
  · rw [along_bind]
    refine ⟨along_evictOldestMetricLocked hP _ _, ?_⟩
    split
    · exact along_roomLocked hP _ _ _
    · exact along_pure _ _
  · exact along_pure _ _

end

/-! ## Keeping a record -/

/-- A record for which `keepRecord` reports no error was written: the spool is what the
write left, but for quiet commands behind it. -/
theorem keepRecord_none {r : Record} (h : answer env (keepRecord r) s = none) :
    ∃ t a, t.active = some a ∧ a.opened = true ∧ ensureActive.exec (step env) s = (.ok (), t) ∧
      Unmoved (t.wrote env a r) (after env (keepRecord r) s) := by
  unfold answer at h
  unfold after
  rw [exec_keepRecord, exec_writeLocked] at h ⊢
  generalize ensureActive.exec (step env) s = x at h ⊢
  obtain ⟨result, t⟩ := x
  cases result with
  | error e =>
    have := notKeptLocked_some env r e t
    rw [answer] at this
    simp [this] at h
  | ok _ =>
    rcases writeRecord_cases env r t with ⟨a, ha, hopened, -, heq⟩ | ⟨u, heq, -⟩
    · refine ⟨t, a, ha, hopened, rfl, ?_⟩
      simp only [heq]
      exact .of_quiet (along_flushRecord (fun _ _ hc => hc) r _)
    · have := notKeptLocked_some env r .io u
      rw [answer] at this
      simp [heq, this] at h

/-- The part of `Append` before the record is admitted. -/
def supersedeEarlier (env : Env) (r : Record) : SpoolM Unit :=
  if r.full env then coalesceInventoryLocked r.hostID else pure ()

theorem along_supersedeEarlier {P : Cmd → Spool → Prop} (hP : ∀ c s, c.deletes = true → P c s)
    (r : Record) (s : Spool) : (supersedeEarlier env r).Along (step env) P s := by
  unfold supersedeEarlier
  split
  · exact along_coalesceInventoryLocked hP _ _
  · exact along_pure _ _

theorem placeRecord_eq (env : Env) (r : Record) : placeRecord env r = (do
    supersedeEarlier env r
    match ← admitRecord r with
    | some e =>
      note .dropped
      notKeptLocked r e
    | none => keepRecord r) := by
  unfold placeRecord supersedeEarlier
  split <;> rfl

def admitted (env : Env) (r : Record) (s : Spool) : Spool :=
  after env (admitRecord r) (after env (supersedeEarlier env r) s)

theorem exec_append (env : Env) (record : Record) (s : Spool) :
    (append env record).exec (step env) s =
      if (after env (stampRecord record) s).closed then
        (some .closed, after env (stampRecord record) s)
      else (placeRecord env (answer env (stampRecord record) s)).exec (step env)
        (after env (stampRecord record) s) := by
  unfold append
  rw [exec_bind, exec_bind, exec_getSpool]
  unfold after answer
  split <;> rfl

theorem placeRecord_none {r : Record} (h : answer env (placeRecord env r) s = none) :
    answer env (admitRecord r) (after env (supersedeEarlier env r) s) = none ∧
      answer env (keepRecord r) (admitted env r s) = none ∧
      after env (placeRecord env r) s = after env (keepRecord r) (admitted env r s) := by
  unfold answer after at *
  rw [placeRecord_eq, exec_bind, exec_bind] at *
  cases hadmitted : ((admitRecord r).exec (step env)
      ((supersedeEarlier env r).exec (step env) s).2).1 with
  | some e =>
    rw [hadmitted] at h
    simp only [exec_bind] at h
    have := notKeptLocked_some env r e
    unfold answer at this
    rw [this] at h
    cases h
  | none =>
    rw [hadmitted] at h
    exact ⟨rfl, h, rfl⟩

theorem append_none {record : Record} (h : answer env (append env record) s = none) :
    (after env (stampRecord record) s).closed = false ∧
      answer env (placeRecord env (answer env (stampRecord record) s))
        (after env (stampRecord record) s) = none ∧ after env (append env record) s =
        after env (placeRecord env (answer env (stampRecord record) s))
          (after env (stampRecord record) s) := by
  have hexec := exec_append env record s
  split at hexec
  · rw [answer, hexec] at h
    cases h
  next hclosed =>
    refine ⟨Bool.eq_false_iff.mpr hclosed, ?_, ?_⟩
    · rw [answer, hexec] at h
      exact h
    · exact congrArg Prod.snd hexec

/-- A record that fits is handed to `keepRecord` at once, when it supersedes nothing. -/
theorem after_append_fits {r : Record} (hsite : r.site ≠ [])
    (hid : r.id.toList ≠ List.replicate 16 0) (hclosed : s.closed = false)
    (hfull : r.full env = false) (hroom : s.live + r.size ≤ s.options.limit r.priority)
    (hfree : s.options.clears (env.free s.tick) r.size = true) :
    (append env r).exec (step env) s = (keepRecord r).exec (step env) s.next := by
  have hstamp := exec_stampRecord env hsite hid s
  rw [exec_append, after, answer, hstamp, hclosed]
  rw [placeRecord_eq, supersedeEarlier, hfull]
  simp [exec_admitRecord_fits hroom hfree]

/-- **An accepted record is in the index**, and it was the last one handed over. -/
theorem append_none_kept {record : Record} (h : answer env (append env record) s = none) :
    ∃ (t : Spool) (a : Segment), t.active = some a ∧
      Unmoved (t.wrote env a (answer env (stampRecord record) s))
        (after env (append env record) s) := by
  obtain ⟨-, hplace, hafter⟩ := append_none h
  obtain ⟨-, hkeep, hafter'⟩ := placeRecord_none hplace
  obtain ⟨t, a, ha, -, -, hunmoved⟩ := keepRecord_none hkeep
  rw [hafter, hafter']
  exact ⟨t, a, ha, hunmoved⟩

/-- **What is accepted can be read back** exactly where its fields fit: the frame written last is read
and decoded to the record, but for the site and for instants that no word holds. -/
theorem append_reads_back_iff {record : Record} (h : answer env (append env record) s = none) :
    ∃ g before, (after env (append env record) s).content g =
        before ++ frame kindRecord (answer env (stampRecord record) s).encode ∧
      ((∃ body r, readFrame (frame kindRecord (answer env (stampRecord record) s).encode) =
          .frame kindRecord body [] ∧ decode body = some r ∧ r = { answer env (stampRecord record) s with
            site := r.site, createdAt := r.createdAt, expiresAt := r.expiresAt }) ↔
        (answer env (stampRecord record) s).Readable ∧
          (answer env (stampRecord record) s).bodySize ≤ maxRecordBytes) := by
  obtain ⟨t, a, -, hunmoved⟩ := append_none_kept h
  have hfiles : (t.wrote env a (answer env (stampRecord record) s)).files = t.files.insert a.id
      (t.content a.id ++ frame kindRecord (answer env (stampRecord record) s).encode) := rfl
  refine ⟨a.id, t.content a.id, ?_, ?_⟩
  · rw [hunmoved.content, content_insert hfiles, if_pos rfl]
  rw [← decode_encode_iff, ← Record.length_encode]
  constructor
  · rintro ⟨body, r, hread, hdecode, hsame⟩
    obtain ⟨hmax, heq⟩ := readFrame_eq_frame_iff.mp hread
    rw [List.append_nil, frame_eq_header, frame_eq_header] at heq
    obtain rfl := List.append_inj_right heq (by simp [headerOf])
    exact ⟨⟨r, hdecode, hsame⟩, hmax⟩
  · rintro ⟨⟨r, hdecode, hsame⟩, hmax⟩
    exact ⟨_, r, readFrame_eq_frame_iff.mpr ⟨hmax, (List.append_nil _).symm⟩, hdecode, hsame⟩

theorem append_reads_back_iff_small : ∃ body r,
    readFrame (frame kindRecord (smallRecord 1).encode) = .frame kindRecord body [] ∧ decode body = some r ∧
      r = { smallRecord 1 with site := r.site, createdAt := r.createdAt, expiresAt := r.expiresAt } := by
  have happend : answer calm (append calm (smallRecord 1)) (fresh calm smallOptions) = none := by
    decide +kernel
  obtain ⟨g, before, -, hiff⟩ := append_reads_back_iff happend
  exact hiff.mpr ⟨Record.readable_of_site (by decide) (by decide) (by decide) (by decide) (by decide)
    (by decide) (by decide +kernel), by decide⟩

/-! ## Runs of calls -/

theorem after_runOps_cons (env : Env) (op : Op) (ops : List Op) (s : Spool) :
    after env (runOps env (op :: ops)) s = after env (runOps env ops) (after env (op.prog env) s) :=
  congrArg Prod.snd (Prog.exec_seqRight (op.prog env) (runOps env ops) s)

theorem after_runOps_nil (env : Env) (s : Spool) : after env (runOps env []) s = s := rfl

theorem after_append_op (env : Env) (r : Record) (s : Spool) :
    after env ((Op.append r).prog env) s = after env (append env r) s :=
  congrArg Prod.snd (exec_bind (append env r) (fun _ => pure ()) s)

end Flotestro.RelaySpool
