import Flotestro.MetricSpool.Model.Spool

/-!
# The numbers of a boot's samples

A restart continues from what the disk still shows of a boot: its counter, or a sample of it.  As
long as that is the last number given, the numbers increase.  It is not when a process is killed
between a sample and its counter and the sample is acknowledged before the next one.
-/

set_option autoImplicit false

namespace Flotestro.MetricSpool

open Library List

/-! ## What the disk shows of a boot -/

/-- The disk shows that the boot has used a number: its counter has reached it, or a
sample of the boot carries it or a later one. -/
def Shown (boot : BootID) (d : Disk) (n : UInt64) : Prop :=
  n ≤ (readCounter boot d).1 ∨ ∃ e ∈ d.entries, e.bootID = boot.text ∧ n ≤ e.file.sequence

instance decidableShown (boot : BootID) (d : Disk) (n : UInt64) : Decidable (Shown boot d n) :=
  inferInstanceAs (Decidable (_ ∨ _))

theorem le_lastNumber (boot : BootID) (recorded : UInt64) (entries : List SpooledSample) :
    recorded ≤ lastNumber boot recorded entries := by
  unfold lastNumber
  induction entries generalizing recorded with
  | nil => exact UInt64.le_refl recorded
  | cons e entries ih =>
    rw [foldl_cons]
    split
    next hlater => exact UInt64.le_trans (UInt64.le_of_lt hlater.2) (ih e.file.sequence)
    · exact ih recorded

variable {boot : BootID} {h : Host} {n : UInt64}

theorem sequence_le_lastNumber {entries : List SpooledSample} {e : SpooledSample} (he : e ∈ entries)
    (hboot : e.bootID = boot.text) (recorded : UInt64) :
    e.file.sequence ≤ lastNumber boot recorded entries := by
  unfold lastNumber
  induction entries generalizing recorded with
  | nil => cases he
  | cons a entries ih =>
    rw [foldl_cons]
    rcases mem_cons.mp he with rfl | hmem
    · split
      · exact le_lastNumber boot _ entries
      next hnot =>
        have hle : e.file.sequence ≤ recorded := UInt64.not_lt.mp fun hlt => hnot ⟨hboot, hlt⟩
        exact UInt64.le_trans hle (le_lastNumber boot recorded entries)
    · exact ih hmem _

/-- A restart continues past every number the disk shows. -/
theorem le_sequence_load {d : Disk} (h : Shown boot d n) (limit : Nat) (removes : SampleName → Bool) :
    n ≤ (load boot limit removes d).1.sequence := by
  rcases h with hcounter | ⟨e, he, hboot, hle⟩
  · exact UInt64.le_trans hcounter (le_lastNumber boot _ d.entries)
  · exact UInt64.le_trans hle (sequence_le_lastNumber he hboot _)

/-- The disk shows the last number given, if one was. -/
def Host.LastShown (boot : BootID) (h : Host) : Prop :=
  h.given.getLast?.elim True (Shown boot h.disk)

def decidableElim (boot : BootID) (d : Disk) :
    (last : Option UInt64) → Decidable (last.elim True (Shown boot d))
  | none => isTrue trivial
  | some n => decidableShown boot d n

instance decidableLastShown (boot : BootID) (h : Host) : Decidable (h.LastShown boot) :=
  decidableElim boot h.disk h.given.getLast?

/-- The numbering has room for one more sample, and a restart finds the last number
given on disk. -/
def Event.Safe (boot : BootID) (h : Host) : Event → Prop
  | .enqueue .. => h.spool.map MetricsSpool.sequence ≠ some 18446744073709551615
  | .restart _ => h.LastShown boot
  | _ => True

instance decidableSafe (boot : BootID) (h : Host) (event : Event) : Decidable (event.Safe boot h) := by
  cases event <;> unfold Event.Safe <;> infer_instance

/-- Every event of a run is safe in the state it happens in. -/
def SafeRun (boot : BootID) (limit : Nat) : Host → List Event → Prop
  | _, [] => True
  | h, event :: events => event.Safe boot h ∧ SafeRun boot limit (h.step boot limit event) events

instance decidableSafeRun (boot : BootID) (limit : Nat) :
    (h : Host) → (events : List Event) → Decidable (SafeRun boot limit h events)
  | _, [] => isTrue trivial
  | h, event :: events =>
    have := decidableSafeRun boot limit (h.step boot limit event) events
    inferInstanceAs (Decidable (event.Safe boot h ∧ _))

/-- The numbers given increase from one on, and a running spool stands at or past the
last of them. -/
structure Increasing (h : Host) : Prop where
  increasing : h.given.Pairwise (· < ·)
  positive : 0 ∉ h.given
  reached : ∀ s, h.spool = some s → ∀ n ∈ h.given, n ≤ s.sequence

/-- What an enqueued sample leaves: the next number, or nothing at all of a process
killed before the sample was on disk. -/
theorem enqueue_spec (boot : BootID) (limit : Nat) (removes : SampleName → Bool)
    (placed recorded : Fate) (s : MetricsSpool) (d : Disk) :
    ((s.enqueue boot limit removes placed recorded d).given = some (s.sequence + 1) ∧
        ∀ s', (s.enqueue boot limit removes placed recorded d).spool = some s' →
          s'.sequence = s.sequence + 1) ∨
      (s.enqueue boot limit removes placed recorded d).given = none ∧
        (s.enqueue boot limit removes placed recorded d).spool = none := by
  cases placed with
  | killed applied =>
    cases applied with
    | true => exact .inl ⟨rfl, by simp [MetricsSpool.enqueue]⟩
    | false => exact .inr ⟨rfl, rfl⟩
  | failed applied =>
    refine .inl ⟨rfl, ?_⟩
    intro s' hs'
    cases hs'
    rfl
  | done =>
    cases recorded with
    | killed applied => exact .inl ⟨rfl, by simp [MetricsSpool.enqueue]⟩
    | failed applied | done =>
      refine .inl ⟨rfl, ?_⟩
      intro s' hs'
      cases hs'
      rfl

@[simp] theorem sequence_forget (removes : SampleName → Bool) (bootID : Bytes) (sequence : UInt64)
    (s : MetricsSpool) (d : Disk) : (s.forget removes bootID sequence d).1.sequence = s.sequence := by
  unfold MetricsSpool.forget
  split <;> rfl

/-- An acknowledgement numbers nothing and never moves the numbering back. -/
theorem acknowledge_spec (boot : BootID) (removes : SampleName → Bool) (ack : MetricsAck)
    (recorded : Fate) (s : MetricsSpool) (d : Disk) :
    (s.acknowledge boot removes ack recorded d).given = none ∧
      ∀ s', (s.acknowledge boot removes ack recorded d).spool = some s' →
        s.sequence ≤ s'.sequence := by
  unfold MetricsSpool.acknowledge
  split
  · refine ⟨rfl, ?_⟩
    intro s' hs'
    cases hs'
    exact UInt64.le_refl _
  · cases hresumes : s.resumes boot ack with
    | none =>
      refine ⟨rfl, ?_⟩
      intro s' hs'
      rw [← Option.some.inj hs', sequence_forget]
      exact UInt64.le_refl _
    | some held =>
      have hheld : s.sequence ≤ held := by
        unfold MetricsSpool.resumes at hresumes
        split at hresumes
        · cases hresumes
        split at hresumes
        next hmove =>
          cases hresumes
          exact UInt64.le_of_lt hmove.2.2
        · cases hresumes
      cases recorded with
      | killed applied => exact ⟨rfl, by simp⟩
      | failed applied | done =>
        refine ⟨rfl, ?_⟩
        intro s' hs'
        rw [← Option.some.inj hs', sequence_forget]
        exact hheld

/-- The numbers still increase after an operation that numbers nothing and does not
move the numbering back. -/
theorem Increasing.unnumbered (hi : Increasing h) {s : MetricsSpool} (hs : h.spool = some s)
    {o : Outcome} (hgiven : o.given = none)
    (hkept : ∀ s', o.spool = some s' → s.sequence ≤ s'.sequence) : Increasing (h.after o) := by
  have hsame : (h.after o).given = h.given := by simp [Host.after, hgiven]
  refine ⟨hsame ▸ hi.increasing, hsame ▸ hi.positive, ?_⟩
  intro s' hs' n hn
  exact UInt64.le_trans (hi.reached s hs n (hsame ▸ hn)) (hkept s' hs')

theorem Increasing.enqueue (hi : Increasing h) {s : MetricsSpool} (hs : h.spool = some s)
    (hroom : s.sequence ≠ 18446744073709551615) (boot : BootID) (limit : Nat)
    (removes : SampleName → Bool) (placed recorded : Fate) :
    Increasing (h.after (s.enqueue boot limit removes placed recorded h.disk)) := by
  have hlt : s.sequence < s.sequence + 1 := UInt64.lt_add_one hroom
  rcases enqueue_spec boot limit removes placed recorded s h.disk with ⟨hgiven, hspool⟩ | ⟨hgiven, hgone⟩
  · have hnew : (h.after (s.enqueue boot limit removes placed recorded h.disk)).given =
        h.given ++ [s.sequence + 1] := by simp [Host.after, hgiven]
    refine ⟨?_, ?_, ?_⟩
    · rw [hnew, pairwise_append]
      refine ⟨hi.increasing, pairwise_singleton _ _, ?_⟩
      intro n hn m hm
      rw [mem_singleton.mp hm]
      exact UInt64.lt_of_le_of_lt (hi.reached s hs n hn) hlt
    · rw [hnew]
      intro hzero
      rcases mem_append.mp hzero with hzero | hzero
      · exact hi.positive hzero
      · rw [← mem_singleton.mp hzero] at hlt
        exact absurd hlt UInt64.not_lt_zero
    · intro s' hs' n hn
      rw [hspool s' hs']
      rw [hnew] at hn
      rcases mem_append.mp hn with hn | hn
      · exact UInt64.le_of_lt (UInt64.lt_of_le_of_lt (hi.reached s hs n hn) hlt)
      · rw [mem_singleton.mp hn]
        exact UInt64.le_refl _
  · apply hi.unnumbered hs hgiven
    intro s' hs'
    rw [hgone] at hs'
    cases hs'

theorem le_of_getLast? {l : List UInt64} (h : l.Pairwise (· < ·)) {last : UInt64} (hn : n ∈ l)
    (hlast : l.getLast? = some last) : n ≤ last := by
  obtain ⟨front, rfl⟩ := getLast?_eq_some_iff.mp hlast
  rcases mem_append.mp hn with hn | hn
  · exact UInt64.le_of_lt ((pairwise_append.mp h).2.2 n hn last mem_cons_self)
  · rw [mem_singleton.mp hn]
    exact UInt64.le_refl _

/-- **A safe event keeps the numbers increasing.** -/
theorem Increasing.step (hi : Increasing h) (limit : Nat) {event : Event}
    (hsafe : event.Safe boot h) : Increasing (h.step boot limit event) := by
  cases event with
  | restart removes =>
    refine ⟨hi.increasing, hi.positive, ?_⟩
    intro s hs n hn
    cases hs
    have hn : n ∈ h.given := hn
    cases hlast : h.given.getLast? with
    | none =>
      rw [getLast?_eq_none_iff.mp hlast] at hn
      cases hn
    | some last =>
      have hshown : Shown boot h.disk last := by
        simpa [Event.Safe, Host.LastShown, hlast] using hsafe
      exact UInt64.le_trans (le_of_getLast? hi.increasing hn hlast)
        (le_sequence_load hshown limit removes)
  | enqueue placed recorded removes =>
    cases hs : h.spool with
    | none => simpa [Host.step, hs] using hi
    | some s =>
      have hroom : s.sequence ≠ 18446744073709551615 := by simpa [Event.Safe, hs] using hsafe
      simpa [Host.step, hs] using hi.enqueue hs hroom boot limit removes placed recorded
  | acknowledge ack recorded removes =>
    cases hs : h.spool with
    | none => simpa [Host.step, hs] using hi
    | some s =>
      obtain ⟨hgiven, hkept⟩ := acknowledge_spec boot removes ack recorded s h.disk
      simpa [Host.step, hs] using hi.unnumbered hs hgiven hkept
  | forget bootID sequence removes =>
    cases hs : h.spool with
    | none => simpa [Host.step, hs] using hi
    | some s =>
      simp only [Host.step, hs]
      refine ⟨hi.increasing, hi.positive, ?_⟩
      intro s' hs' n hn
      cases hs'
      rw [sequence_forget]
      exact hi.reached s hs n hn

theorem Increasing.run {limit : Nat} {events : List Event} (hi : Increasing h)
    (hsafe : SafeRun boot limit h events) : Increasing (h.run boot limit events) := by
  induction events generalizing h with
  | nil => exact hi
  | cons event events ih => exact ih (hi.step limit hsafe.1) hsafe.2

/-- **The numbers of a boot increase** along every run whose restarts find the last number given
on disk, in the counter or on a sample, and whose numbering does not stand at its end.
SOURCE: metricspool.go:99-262, 381-437 -/
theorem numbers_increase {boot : BootID} {limit : Nat} {disk : Disk} {events : List Event}
    (hsafe : SafeRun boot limit ⟨none, disk, []⟩ events) :
    ((Host.run boot limit ⟨none, disk, []⟩ events).given).Pairwise (· < ·) ∧
      0 ∉ (Host.run boot limit ⟨none, disk, []⟩ events).given := by
  have hstart : Increasing ⟨none, disk, []⟩ := ⟨.nil, by simp, by simp⟩
  exact ⟨(hstart.run hsafe).increasing, (hstart.run hsafe).positive⟩

/-! ## A number given twice -/

/-- A boot to run the spool in. -/
def someBoot : BootID := ⟨ascii "0a".toList, by decide, by decide⟩

def emptyDisk : Disk := ⟨∅, none⟩

/-- The process is killed between the second sample and its counter; the sample is sent
after the restart and acknowledged; the process is started once more. -/
def acknowledgedBeforeRecorded : List Event :=
  [.restart fun _ => true, .enqueue .done .done fun _ => true,
    .enqueue .done (.killed false) fun _ => true, .restart fun _ => true,
    .acknowledge ⟨someBoot.text, 2, false, none⟩ .done fun _ => true, .restart fun _ => true,
    .enqueue .done .done fun _ => true]

/-- An acknowledgement says the panel holds the last number there is. -/
def resumedAtTheEnd : List Event :=
  [.restart fun _ => true, .enqueue .done .done fun _ => true,
    .acknowledge ⟨someBoot.text, 1, true, some 18446744073709551615⟩ .done fun _ => true,
    .enqueue .done .done fun _ => true]

/-- A number is given twice when a process is killed between a sample and its counter and the
sample is acknowledged before the next one; and past the last number comes zero. -/
theorem number_given_twice :
    (Host.run someBoot 240 ⟨none, emptyDisk, []⟩ acknowledgedBeforeRecorded).given = [1, 2, 2] ∧
      (Host.run someBoot 240 ⟨none, emptyDisk, []⟩ resumedAtTheEnd).given = [1, 0] := by
  decide

/-- The process is killed at the same point, and the next sample comes before another
restart. -/
def killedAndResumed : List Event :=
  [.restart fun _ => true, .enqueue .done .done fun _ => true,
    .enqueue .done (.killed false) fun _ => true, .restart fun _ => true,
    .enqueue .done .done fun _ => true,
    .acknowledge ⟨someBoot.text, 2, false, none⟩ .done fun _ => true, .restart fun _ => true,
    .enqueue .done .done fun _ => true]

theorem numbers_increase_killed : SafeRun someBoot 240 ⟨none, emptyDisk, []⟩ killedAndResumed ∧
      (Host.run someBoot 240 ⟨none, emptyDisk, []⟩ killedAndResumed).given = [1, 2, 3, 4] ∧
      (Host.run someBoot 240 ⟨none, emptyDisk, []⟩ killedAndResumed).given.Pairwise (· < ·) := by
  have hsafe : SafeRun someBoot 240 ⟨none, emptyDisk, []⟩ killedAndResumed := by decide
  exact ⟨hsafe, by decide, (numbers_increase hsafe).1⟩

end Flotestro.MetricSpool
