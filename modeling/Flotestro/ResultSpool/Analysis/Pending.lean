import Flotestro.ResultSpool.Model.Spool
import Flotestro.Library.Runs
import Mathlib.Data.List.Nodup

/-!
# What leaves the result spool

`Pending` forgets by the attempt what it could not read by the file.  A result that is spooled again
while `Pending` goes over its copy takes the old file away, and `Pending` then forgets the new result.
The delivery of a result forgets by the attempt too, and a start may find two results of one attempt.
Where no result is spooled for an attempt that a running `Pending` or a delivery has in hand, or beside
another one, and a `Pending` begins with one result for each attempt, a result leaves only for one of the
reasons there are.
-/

set_option autoImplicit false

namespace Flotestro.ResultSpool

open Library List

/-- The entries a `Pending` has not read and the results a delivery has to send. -/
def Reading.hand (r : Reading) : List Entry := r.left ++ r.owed

namespace Spool

variable {s s' : Spool} {e : Event} {x : Entry}

/-! ## The entries and their files -/

/-- The entries have their files and are in the order of their numbers. -/
structure Sound (s : Spool) : Prop where
  files : ∀ x ∈ s.entries, x.sequence ∈ s.files
  ordered : s.entries.Pairwise fun x y => x.sequence < y.sequence
  fresh : ∀ x ∈ s.entries, x.sequence ≤ s.sequence

/-- Entries that leave take no file of another entry with them. -/
theorem Sound.drop (h : Sound s) {kept dropped : List Entry} (hsub : kept.Sublist s.entries)
    (hperm : (kept ++ dropped).Perm s.entries) : Sound (s.drop kept dropped) := by
  have hne : ∀ x ∈ kept, ∀ y ∈ dropped, y.sequence ≠ x.sequence := by
    have hall : (kept ++ dropped).Pairwise fun x y => x.sequence ≠ y.sequence :=
      (hperm.pairwise_iff fun hxy => Ne.symm hxy).mpr (h.ordered.imp Nat.ne_of_lt)
    intro x hx y hy
    exact ((pairwise_append.mp hall).2.2 x hx y hy).symm
  refine ⟨fun x hx => ?_, h.ordered.sublist hsub, fun x hx => h.fresh x (hsub.subset hx)⟩
  refine mem_filter.mpr ⟨h.files x (hsub.subset hx), ?_⟩
  rw [Bool.or_eq_true]
  refine .inr (all_eq_true.mpr fun y hy => ?_)
  exact decide_eq_true (hne x hx y hy)

/-- **What `forget` takes** is the first entry of the attempt. -/
theorem forget_spec (s : Spool) (taskID : Nat) :
    (s.entries.find? (·.taskID = taskID) = none ∧ s.forget taskID = s) ∨
      ∃ a before after, s.entries.find? (·.taskID = taskID) = some a ∧ a.taskID = taskID ∧
        s.entries = before ++ a :: after ∧ s.forget taskID = s.drop (before ++ after) [a] := by
  cases hfind : s.entries.find? (·.taskID = taskID) with
  | none => exact .inl ⟨rfl, by rw [forget, hfind]⟩
  | some a =>
    obtain ⟨ha, before, after, hentries, hbefore⟩ := find?_eq_some_iff_append.mp hfind
    refine .inr ⟨a, before, after, rfl, of_decide_eq_true ha, hentries, ?_⟩
    have herase : s.entries.eraseP (·.taskID = taskID) = before ++ after := by
      rw [hentries, eraseP_append_right _ fun b hb => by simpa using hbefore b hb, eraseP_cons, ha]
      rfl
    rw [forget, hfind]
    rw [herase]

theorem forget_sublist (s : Spool) (taskID : Nat) : (s.forget taskID).entries.Sublist s.entries := by
  rcases forget_spec s taskID with ⟨-, heq⟩ | ⟨a, before, after, -, -, hentries, heq⟩
  · rw [heq]
  · rw [heq, hentries]
    exact (Sublist.refl before).append (sublist_cons_self a after)

theorem forget_readings (s : Spool) (taskID : Nat) : (s.forget taskID).readings = s.readings := by
  unfold forget
  split <;> rfl

theorem Sound.forget (h : Sound s) (taskID : Nat) : Sound (s.forget taskID) := by
  rcases forget_spec s taskID with ⟨-, heq⟩ | ⟨a, before, after, -, -, hentries, heq⟩
  · rwa [heq]
  · rw [heq]
    refine h.drop ?_ ?_
    · rw [hentries]
      exact (Sublist.refl before).append (sublist_cons_self a after)
    · rw [hentries]
      have hmiddle : (a :: (before ++ after)).Perm (before ++ a :: after) := perm_middle.symm
      exact perm_append_comm.trans hmiddle

/-- An entry that `forget` takes is the first of its attempt. -/
theorem first_of_forget {taskID : Nat} (hx : x ∈ s.entries) (hgone : x ∉ (s.forget taskID).entries) :
    s.entries.find? (·.taskID = taskID) = some x ∧ x.taskID = taskID := by
  rcases forget_spec s taskID with ⟨-, heq⟩ | ⟨a, before, after, hfind, ha, hentries, heq⟩
  · rw [heq] at hgone
    exact absurd hx hgone
  · rw [heq] at hgone
    rw [hentries] at hx
    have hxa : x = a := by
      by_contra hne
      refine hgone (mem_append.mpr ((mem_append.mp hx).imp_right fun h => ?_))
      exact (mem_cons.mp h).resolve_left hne
    rw [hxa]
    exact ⟨hfind, ha⟩

theorem overflow_initial (limit maxSize : Nat) (entries : List Entry) (bytes : Int) :
    overflow limit maxSize entries bytes <+: entries := by
  induction entries generalizing bytes with
  | nil => exact prefix_rfl
  | cons x rest ih =>
    rw [overflow]
    split
    · exact cons_prefix_cons.mpr ⟨rfl, ih _⟩
    · exact nil_prefix

/-- The entries before an eviction are those that leave and, after them, those that stay. -/
theorem overflow_append (s : Spool) :
    overflow s.limit s.maxSize s.entries s.bytes ++ s.evict.entries = s.entries := by
  conv_rhs => rw [← take_append_drop (overflow s.limit s.maxSize s.entries s.bytes).length s.entries]
  rw [← prefix_iff_eq_take.mp (overflow_initial s.limit s.maxSize s.entries s.bytes)]
  rfl

theorem Sound.evict (h : Sound s) : Sound s.evict := by
  refine h.drop (drop_sublist _ _) (perm_append_comm.trans ?_)
  exact Perm.of_eq (overflow_append s)

theorem Sound.expire (h : Sound s) (now : Int) : Sound (s.expire now) :=
  h.drop filter_sublist (filter_append_perm _ s.entries)

theorem Sound.push (h : Sound s) (hsequence : x.sequence = s.sequence + 1) : Sound (s.push x) where
  files := forall_mem_concat (fun y hy => mem_cons_of_mem _ (h.files y hy)) mem_cons_self
  ordered := by
    refine pairwise_append.mpr ⟨h.ordered, pairwise_singleton _ _, fun y hy z hz => ?_⟩
    rw [mem_singleton.mp hz, hsequence]
    exact Nat.lt_succ_of_le (h.fresh y hy)
  fresh := by
    refine forall_mem_concat (fun y hy => ?_) (Nat.le_refl _)
    change y.sequence ≤ x.sequence
    rw [hsequence]
    exact Nat.le_succ_of_le (h.fresh y hy)

/-- **What `Enqueue` does**: nothing, the removal of an entry of the attempt, or that and a new one. -/
theorem enqueue_cases (s : Spool) (now : Int) (result : Result) (written : Bool) :
    s.enqueue now result written = s ∨
      s.enqueue now result written =
        { s.forget result.taskID with sequence := (s.forget result.taskID).sequence + 1 } ∨
      s.enqueue now result written = ((s.forget result.taskID).push
        ((s.forget result.taskID).entryOf now result)).evict := by
  unfold enqueue
  split
  · exact .inl rfl
  split
  · exact .inr (.inr rfl)
  · exact .inr (.inl rfl)

theorem Sound.enqueue (h : Sound s) (now : Int) (result : Result) (written : Bool) :
    Sound (s.enqueue now result written) := by
  have hforget := h.forget result.taskID
  rcases enqueue_cases s now result written with heq | heq | heq
  · rwa [heq]
  · rw [heq]
    exact ⟨hforget.files, hforget.ordered, fun x hx => Nat.le_succ_of_le (hforget.fresh x hx)⟩
  · rw [heq]
    exact (hforget.push rfl).evict

theorem Sound.setReading (h : Sound s) (p : Nat) (reading : Reading) : Sound (s.setReading p reading) :=
  ⟨h.files, h.ordered, h.fresh⟩

/-- **What `Acknowledge` does**: nothing, or what `forget` does for an acknowledgement of the entry. -/
theorem acknowledge_cases (s : Spool) (ack : Ack) :
    s.acknowledge ack = s ∨ s.acknowledge ack = s.forget ack.taskID ∧
      ∀ x, s.entries.find? (·.taskID = ack.taskID) = some x → Entry.acknowledgedBy x ack = true := by
  unfold acknowledge
  split
  · exact .inl rfl
  next x hfind =>
    split
    next haccepted =>
      refine .inr ⟨rfl, fun y hy => ?_⟩
      obtain rfl : x = y := Option.mem_unique hfind hy
      exact haccepted
    · exact .inl rfl

/-- **What ends a delivery**: it had the result to send. -/
theorem sent_eq {p : Nat} {forgets : Bool} (hstep : step (.sent p x forgets) s = some s') :
    x ∈ (s.readings p).owed ∧ s' = (if forgets then s.forget x.taskID else s).setReading p
      { s.readings p with owed := (s.readings p).owed.erase x } :=
  (of_guard hstep).imp_right Eq.symm

/-- Every event leaves the entries with their files and in order. -/
theorem sound_step (hstep : step e s = some s') (h : Sound s) : Sound s' := by
  cases e with
  | enqueue now result written p =>
    cases hstep
    exact (h.enqueue now result written).setReading p _
  | acknowledge ack =>
    cases hstep
    rcases acknowledge_cases s ack with heq | ⟨heq, -⟩
    · rwa [heq]
    · rw [heq]
      exact h.forget ack.taskID
  | sent p x forgets =>
    obtain ⟨-, rfl⟩ := sent_eq hstep
    cases forgets with
    | false => exact h.setReading p _
    | true => exact (h.forget x.taskID).setReading p _
  | expire now =>
    cases hstep
    exact h.expire now
  | snapshot p =>
    cases hstep
    exact h.setReading p _
  | read p =>
    rw [step] at hstep
    split at hstep
    · split at hstep <;> cases hstep <;> exact h.setReading p _
    · cases hstep
  | giveUp p =>
    rw [step] at hstep
    split at hstep
    next rest y owed hreading =>
      cases hstep
      exact (h.forget y.taskID).setReading p _
    · cases hstep

/-- The numbers of the files are what names them, so no two files have one. -/
def Named (listing : List Item) : Prop := ((listing.filterMap Item.entry).map Entry.sequence).Nodup

theorem le_foldl_max (entries : List Entry) (n : Nat) :
    n ≤ entries.foldl (fun sequence x => max sequence x.sequence) n ∧
      ∀ x ∈ entries, x.sequence ≤ entries.foldl (fun sequence x => max sequence x.sequence) n := by
  induction entries generalizing n with
  | nil => exact ⟨Nat.le_refl n, nofun⟩
  | cons y entries ih =>
    obtain ⟨hn, hentries⟩ := ih (max n y.sequence)
    exact ⟨Nat.le_trans (Nat.le_max_left _ _) hn,
      forall_mem_cons.mpr ⟨Nat.le_trans (Nat.le_max_right _ _) hn, hentries⟩⟩

/-- **A start leaves the entries with their files and in order.** -/
theorem load_sound (limit maxSize : Nat) (ttl : Int) (stuck : Nat → Bool) {listing : List Item}
    (h : Named listing) : Sound (load limit maxSize ttl stuck listing) := by
  refine Sound.evict ⟨fun x hx => mem_map_of_mem hx, ?_, (le_foldl_max _ 0).2⟩
  have hsorted := pairwise_insertionSort (fun x y : Entry => x.sequence ≤ y.sequence)
    (listing.filterMap Item.entry)
  have hperm := perm_insertionSort (fun x y : Entry => x.sequence ≤ y.sequence)
    (listing.filterMap Item.entry)
  have hne : ((listing.filterMap Item.entry).insertionSort fun x y => x.sequence ≤ y.sequence).Pairwise
      fun x y => x.sequence ≠ y.sequence := pairwise_map.mp ((hperm.map Entry.sequence).nodup_iff.mpr h)
  exact hsorted.imp₂ (fun x y hle hxy => Nat.lt_of_le_of_ne hle hxy) hne

/-- Who has an entry in hand knows of the only result of its attempt, and a `Pending` has nothing to
forget after a read that failed. -/
structure Heeded (s : Spool) : Prop where
  hand : ∀ p, ∀ x ∈ (s.readings p).hand, ∀ y ∈ s.entries, y.taskID = x.taskID → y = x
  failed : ∀ p, ∀ x ∈ (s.readings p).failed, ∀ y ∈ s.entries, y.taskID ≠ x.taskID

theorem Heeded.shrink (h : Heeded s) (hsub : s'.entries ⊆ s.entries)
    (hreadings : s'.readings = s.readings) : Heeded s' where
  hand p x hx y hy := h.hand p x (hreadings ▸ hx) y (hsub hy)
  failed p x hx y hy := h.failed p x (hreadings ▸ hx) y (hsub hy)

theorem Heeded.forget (h : Heeded s) (taskID : Nat) : Heeded (s.forget taskID) :=
  h.shrink (forget_sublist s taskID).subset (forget_readings s taskID)

/-- No `Pending` and no delivery has an entry of the attempt in hand. -/
def Free (s : Spool) (taskID : Nat) : Prop :=
  ∀ p, (∀ x ∈ (s.readings p).hand, x.taskID ≠ taskID) ∧ ∀ x ∈ (s.readings p).failed, x.taskID ≠ taskID

section
variable {now : Int} {result : Result} {written : Bool}

theorem enqueue_readings : (s.enqueue now result written).readings = s.readings := by
  rcases enqueue_cases s now result written with heq | heq | heq <;> rw [heq]
  all_goals exact forget_readings s result.taskID

/-- An `Enqueue` adds the new result and no other. -/
theorem mem_enqueue {y : Entry} (hy : y ∈ (s.enqueue now result written).entries) :
    y ∈ s.entries ∨ y = (s.forget result.taskID).entryOf now result := by
  have hforget := (forget_sublist s result.taskID).subset
  rcases enqueue_cases s now result written with heq | heq | heq <;> rw [heq] at hy
  · exact .inl hy
  · exact .inl (hforget hy)
  · exact (mem_append.mp (drop_subset _ _ hy)).imp (hforget ·) mem_singleton.mp

theorem Heeded.enqueue (h : Heeded s) (hfree : s.Free result.taskID) :
    Heeded (s.enqueue now result written) where
  hand p x hx y hy htask := by
    rw [enqueue_readings] at hx
    rcases mem_enqueue hy with hy | rfl
    · exact h.hand p x hx y hy htask
    · exact absurd htask.symm ((hfree p).1 x hx)
  failed p x hx y hy := by
    rw [enqueue_readings] at hx
    rcases mem_enqueue hy with hy | rfl
    · exact h.failed p x hx y hy
    · exact ((hfree p).2 x hx).symm

end

section
variable (h : Heeded s) (p : Nat) {reading : Reading}
  (hfailed : ∀ x ∈ reading.failed, ∀ y ∈ s.entries, y.taskID ≠ x.taskID)
include h hfailed

theorem Heeded.setReading
    (hhand : ∀ x ∈ reading.hand, ∀ y ∈ s.entries, y.taskID = x.taskID → y = x) :
    Heeded (s.setReading p reading) where
  hand q := by
    by_cases hq : q = p
    · simpa only [Spool.setReading, if_pos hq] using hhand
    · simpa only [Spool.setReading, if_neg hq] using h.hand q
  failed q := by
    by_cases hq : q = p
    · simpa only [Spool.setReading, if_pos hq] using hfailed
    · simpa only [Spool.setReading, if_neg hq] using h.failed q

/-- Who goes on has no more in hand than before. -/
theorem Heeded.advance (hsub : reading.hand ⊆ (s.readings p).hand) : Heeded (s.setReading p reading) :=
  h.setReading p hfailed fun x hx => h.hand p x (hsub hx)

end

/-- A result is spooled for an attempt that nobody has in hand, with no other result of it beside, and a
`Pending` begins when no attempt has two results. -/
def Apart : Event → Spool → Prop
  | .enqueue now result written _, s => s.Free result.taskID ∧
    ∀ y ∈ (s.enqueue now result written).entries, y.taskID = result.taskID →
      y = (s.forget result.taskID).entryOf now result
  | .snapshot _, s => (s.entries.map Entry.taskID).Nodup
  | _, _ => True

structure Inv (s : Spool) : Prop where
  sound : Sound s
  heeded : Heeded s

theorem inv_step (hstep : step e s = some s') (hapart : Apart e s) (h : Inv s) : Inv s' := by
  refine ⟨sound_step hstep h.sound, ?_⟩
  obtain ⟨hsound, h⟩ := h
  cases e with
  | enqueue now result written p =>
    cases hstep
    refine (h.enqueue hapart.1).setReading p (fun _ hx => nomatch hx) fun x hx => ?_
    obtain rfl := mem_singleton.mp hx
    exact hapart.2
  | acknowledge ack =>
    cases hstep
    rcases acknowledge_cases s ack with heq | ⟨heq, -⟩
    · rwa [heq]
    · rw [heq]
      exact h.forget ack.taskID
  | sent p x forgets =>
    obtain ⟨-, rfl⟩ := sent_eq hstep
    have hsub := ((Sublist.refl (s.readings p).left).append
      (erase_sublist (a := x) (l := (s.readings p).owed))).subset
    cases forgets with
    | false => exact h.advance p (h.failed p) hsub
    | true =>
      have hforget := h.forget x.taskID
      refine hforget.advance p ?_ ?_
      · have hfailed := hforget.failed p
        rwa [forget_readings] at hfailed
      · rwa [forget_readings]
  | expire now =>
    cases hstep
    exact h.shrink (filter_subset_self _) rfl
  | snapshot p =>
    cases hstep
    refine h.setReading p (fun _ hx => nomatch hx) fun x hx y hy htask => ?_
    rw [Reading.hand, append_nil] at hx
    exact inj_on_of_nodup_map hapart hy hx htask
  | read p =>
    rw [step] at hstep
    split at hstep
    next x rest owed hreading =>
      split at hstep
      · cases hstep
        refine h.advance p (fun _ hx => nomatch hx) ?_
        rw [hreading]
        exact perm_middle.subset
      next hmissing =>
        cases hstep
        refine h.advance p (fun z hz y hy htask => hmissing ?_) ?_
        · -- a result of the attempt that is held would be the one in hand, and have its file
          obtain rfl := Option.mem_some.mp hz
          obtain rfl := h.hand p x (by rw [hreading]; exact mem_cons_self) y hy htask
          exact hsound.files y hy
        · rw [hreading]
          exact subset_cons_self _ _
    · cases hstep
  | giveUp p =>
    rw [step] at hstep
    split at hstep
    next rest x owed hreading =>
      cases hstep
      refine (h.forget x.taskID).advance p (fun _ hx => nomatch hx) ?_
      rw [forget_readings, hreading]
      exact Subset.refl _
    · cases hstep

/-- Nothing runs at a start. -/
theorem load_inv (limit maxSize : Nat) (ttl : Int) (stuck : Nat → Bool) {listing : List Item}
    (h : Named listing) : Inv (load limit maxSize ttl stuck listing) :=
  ⟨load_sound limit maxSize ttl stuck h, nofun, nofun⟩

/-! ## Why a result leaves -/

/-- The reasons for which an entry leaves the spool. -/
inductive Leaves (s s' : Spool) (x : Entry) : Event → Prop where
  | acknowledged (ack : Ack) (htask : ack.taskID = x.taskID)
      (haccepted : Entry.acknowledgedBy x ack = true) :
      Leaves s s' x (.acknowledge ack)
  | delivered (p : Nat) : Leaves s s' x (.sent p x true)
  | expired (now : Int) (hold : s.ttl ≤ now - x.spooledAt) : Leaves s s' x (.expire now)
  | replaced (now : Int) (result : Result) (written : Bool) (p : Nat) (htask : result.taskID = x.taskID) :
      Leaves s s' x (.enqueue now result written p)
  | evicted (now : Int) (result : Result) (written : Bool) (p : Nat)
      (holdest : ∀ y ∈ s'.entries, x.sequence < y.sequence) : Leaves s s' x (.enqueue now result written p)

/-- What an eviction takes is older than what it leaves. -/
theorem Sound.older_of_evicted (h : Sound s) (hx : x ∈ s.entries) (hgone : x ∉ s.evict.entries) :
    ∀ y ∈ s.evict.entries, x.sequence < y.sequence := by
  have hsplit := overflow_append s
  have hordered := h.ordered
  rw [← hsplit] at hx hordered
  intro y hy
  refine (pairwise_append.mp hordered).2.2 x ?_ y hy
  exact (mem_append.mp hx).resolve_right hgone

theorem leaves_enqueue (h : Sound s) {now : Int} {result : Result} {written : Bool} {p : Nat}
    (hstep : step (.enqueue now result written p) s = some s') (hx : x ∈ s.entries)
    (hgone : x ∉ s'.entries) : Leaves s s' x (.enqueue now result written p) := by
  cases hstep
  replace hgone : x ∉ (s.enqueue now result written).entries := hgone
  by_cases hkept : x ∈ (s.forget result.taskID).entries
  · refine .evicted now result written p ?_
    change ∀ y ∈ (s.enqueue now result written).entries, _
    rcases enqueue_cases s now result written with heq | heq | heq <;> rw [heq] at hgone
    · exact absurd hx hgone
    · exact absurd hkept hgone
    · rw [heq]
      exact ((h.forget result.taskID).push rfl).older_of_evicted (mem_append_left _ hkept) hgone
  · exact .replaced now result written p (first_of_forget hx hkept).2.symm

theorem leaves_step (h : Inv s) (hstep : step e s = some s') (hx : x ∈ s.entries)
    (hgone : x ∉ s'.entries) : Leaves s s' x e := by
  cases e with
  | enqueue now result written p => exact leaves_enqueue h.sound hstep hx hgone
  | acknowledge ack =>
    cases hstep
    rcases acknowledge_cases s ack with heq | ⟨heq, haccepted⟩ <;> rw [heq] at hgone
    · exact absurd hx hgone
    · obtain ⟨hfirst, htask⟩ := first_of_forget hx hgone
      exact .acknowledged ack htask.symm (haccepted x hfirst)
  | sent p y forgets =>
    obtain ⟨howed, rfl⟩ := sent_eq hstep
    cases forgets with
    | false => exact absurd hx hgone
    | true =>
      -- the entry taken by the attempt is the one in hand
      obtain rfl := h.heeded.hand p y (mem_append_right _ howed) x hx (first_of_forget hx hgone).2
      exact .delivered p
  | expire now =>
    cases hstep
    refine .expired now (Int.not_lt.mp fun hyoung => hgone ?_)
    exact mem_filter.mpr ⟨hx, decide_eq_true hyoung⟩
  | snapshot p =>
    cases hstep
    exact absurd hx hgone
  | read p =>
    rw [step] at hstep
    split at hstep
    · split at hstep <;> cases hstep <;> exact absurd hx hgone
    · cases hstep
  | giveUp p =>
    rw [step] at hstep
    split at hstep
    next rest y owed hreading =>
      cases hstep
      have htask := (first_of_forget hx hgone).2
      exact absurd htask (h.heeded.failed p y (by rw [hreading]; exact rfl) x hx)
    · cases hstep

/-- **No answer is lost to a race.**  In every run from a start, a result leaves the spool only by an
acknowledgement that is accepted for it, by its delivery, by its age, as the oldest, or for a later result
of its attempt. -/
theorem results_leave_for_a_reason (limit maxSize : Nat) (ttl : Int) (stuck : Nat → Bool)
    (listing : List Item) (hnamed : Named listing) (events : List Event) (s s' : Spool) (e : Event)
    (hapart : meets step Apart events (load limit maxSize ttl stuck listing))
    (hrun : run step events (load limit maxSize ttl stuck listing) = some s)
    (hstep : step e s = some s') (x : Entry) (hx : x ∈ s.entries) (hgone : x ∉ s'.entries) :
    Leaves s s' x e := by
  have hinv : Inv s :=
    run_inv_of_meets (I := Inv) inv_step hapart hrun (load_inv limit maxSize ttl stuck hnamed)
  exact leaves_step hinv hstep hx hgone

/-! ## How many results an attempt has -/

/-- The results of the attempt are no more than there were, or one. -/
def AtMost (n taskID : Nat) (s : Spool) : Prop :=
  s.entries.countP (·.taskID = taskID) ≤ max 1 n

theorem AtMost.sublist {n taskID : Nat} (h : AtMost n taskID s) (hsub : s'.entries.Sublist s.entries) :
    AtMost n taskID s' :=
  Nat.le_trans (hsub.countP_le) h

/-- A result is spooled in the place of one that was held. -/
theorem countP_forget_push (s : Spool) (x : Entry) :
    ((s.forget x.taskID).push x).entries.countP (·.taskID = x.taskID) ≤
      max 1 (s.entries.countP (·.taskID = x.taskID)) := by
  change ((s.forget x.taskID).entries ++ [x]).countP _ ≤ _
  rw [countP_append, countP_singleton, if_pos (decide_eq_true rfl)]
  rcases forget_spec s x.taskID with ⟨hnone, heq⟩ | ⟨a, before, after, -, ha, hentries, heq⟩
  · rw [heq, countP_eq_zero.mpr fun y hy => find?_eq_none.mp hnone y hy]
    omega
  · rw [heq, hentries]
    change (before ++ after).countP _ + 1 ≤ _
    rw [countP_append, countP_append, countP_cons, if_pos (decide_eq_true ha)]
    omega

theorem atMost_step {n taskID : Nat} (hstep : step e s = some s') (h : AtMost n taskID s) :
    AtMost n taskID s' := by
  cases e with
  | enqueue now result written p =>
    cases hstep
    change AtMost n taskID (s.enqueue now result written)
    rcases enqueue_cases s now result written with heq | heq | heq
    · rwa [heq]
    · rw [heq]
      exact h.sublist (forget_sublist s result.taskID)
    · rw [heq]
      refine AtMost.sublist ?_ (drop_sublist _ _)
      by_cases htask : result.taskID = taskID
      · subst htask
        have hcount := countP_forget_push s ((s.forget result.taskID).entryOf now result)
        exact Nat.le_trans hcount (Nat.max_le.mpr ⟨Nat.le_max_left 1 n, h⟩)
      · have hforget := h.sublist (forget_sublist s result.taskID)
        have hother : ((s.forget result.taskID).entryOf now result).taskID ≠ taskID := htask
        change ((s.forget result.taskID).entries ++ [_]).countP _ ≤ _
        rw [countP_append, countP_singleton, if_neg (by simpa using hother)]
        exact hforget
  | acknowledge ack =>
    cases hstep
    rcases acknowledge_cases s ack with heq | ⟨heq, -⟩
    · rwa [heq]
    · rw [heq]
      exact h.sublist (forget_sublist s ack.taskID)
  | sent p x forgets =>
    obtain ⟨-, rfl⟩ := sent_eq hstep
    cases forgets with
    | false => exact h
    | true => exact h.sublist (forget_sublist s x.taskID)
  | expire now =>
    cases hstep
    exact h.sublist filter_sublist
  | snapshot p =>
    cases hstep
    exact h
  | read p =>
    rw [step] at hstep
    split at hstep
    · split at hstep <;> cases hstep <;> exact h
    · cases hstep
  | giveUp p =>
    rw [step] at hstep
    split at hstep
    next rest y owed hreading =>
      cases hstep
      exact h.sublist (forget_sublist s y.taskID)
    · cases hstep

/-- **What is held can be sent again.**  In every run from a start each result held has its file, they
stand in the order of spooling, and an attempt has at most one, or as many as the start found. -/
theorem held_results_in_order (limit maxSize : Nat) (ttl : Int) (stuck : Nat → Bool) (listing : List Item)
    (hnamed : Named listing) (events : List Event) (s : Spool)
    (hrun : run step events (load limit maxSize ttl stuck listing) = some s) :
    (∀ x ∈ s.entries, x.sequence ∈ s.files) ∧
      s.entries.Pairwise (fun x y => x.sequence < y.sequence) ∧
      ∀ taskID, s.entries.countP (·.taskID = taskID) ≤
        max 1 ((load limit maxSize ttl stuck listing).entries.countP (·.taskID = taskID)) := by
  have hsound : Sound s := run_inv sound_step hrun (load_sound limit maxSize ttl stuck hnamed)
  refine ⟨hsound.files, hsound.ordered, fun taskID => ?_⟩
  exact run_inv (I := AtMost _ taskID) atMost_step hrun (Nat.le_max_right _ _)

def resultOf (digest : Nat) : Result := ⟨1, some 5, 10, digest⟩

def heldAs (sequence digest : Nat) : Entry := ⟨sequence, 1, some 5, 0, 18, digest⟩

/-- The file of a result as an earlier process left it. -/
def fileOf (sequence digest : Nat) : Item := ⟨some (sequence, 1), some (resultOf digest), 0, 18⟩

def loaded (listing : List Item) : Spool := load 64 1000 100 (fun _ => false) listing

/-- The first result of the attempt could not be removed and comes back; the panel takes it, and then
the second. -/
theorem results_leave_for_a_reason_acknowledged :
    ∃ s s', run step [.acknowledge ⟨1, some 5, some 7⟩, .snapshot 0, .read 0]
        (loaded [fileOf 2 8, fileOf 1 7]) = some s ∧
      step (.acknowledge ⟨1, some 5, some 8⟩) s = some s' ∧ heldAs 2 8 ∈ s.entries ∧
      heldAs 2 8 ∉ s'.entries ∧ Leaves s s' (heldAs 2 8) (.acknowledge ⟨1, some 5, some 8⟩) := by
  refine ⟨_, _, rfl, rfl, ?_, ?_, ?_⟩
  · decide
  · decide
  · refine results_leave_for_a_reason 64 1000 100 (fun _ => false) [fileOf 2 8, fileOf 1 7] ?_
      [.acknowledge ⟨1, some 5, some 7⟩, .snapshot 0, .read 0] _ _ (.acknowledge ⟨1, some 5, some 8⟩) ?_
      rfl rfl (heldAs 2 8) ?_ ?_
    · unfold Named
      decide
    · refine meets_cons trivial rfl <| meets_cons ?_ rfl <| meets_cons trivial rfl trivial
      unfold Apart
      decide
    · decide
    · decide

/-- Two results of the attempt are found, and stand in their order. -/
theorem held_results_in_order_read : ∃ s, run step [.snapshot 0, .read 0]
      (loaded [fileOf 2 8, fileOf 1 7]) = some s ∧ s.entries = [heldAs 1 7, heldAs 2 8] ∧
      s.entries.Pairwise fun x y => x.sequence < y.sequence := by
  refine ⟨_, rfl, by decide, ?_⟩
  refine (held_results_in_order 64 1000 100 (fun _ => false) [fileOf 2 8, fileOf 1 7] ?_
    [.snapshot 0, .read 0] _ rfl).2.1
  unfold Named
  decide

/-- A `Pending` holds the first result when a second one is spooled for the attempt; it
cannot read the file of the first and forgets the second. -/
theorem result_lost_to_pending :
    (run step [.enqueue 0 (resultOf 7) true 1, .snapshot 0, .enqueue 0 (resultOf 8) true 2, .read 0]
        (loaded [])).map entries = some [heldAs 2 8] ∧ (run step
        [.enqueue 0 (resultOf 7) true 1, .snapshot 0, .enqueue 0 (resultOf 8) true 2, .read 0, .giveUp 0]
        (loaded [])).map entries = some [] := by
  exact ⟨by decide, by decide⟩

end Spool

end Flotestro.ResultSpool
