import Flotestro.Library.Runs
import Mathlib.Algebra.Order.BigOperators.Group.List
import Flotestro.HostLocks.Model.Locks

/-!
# The locks keep the resources of a host apart

`holders_take`, `holders_release` and `free_of_collision` say what the operations do to the
holders of a class and what a set of claims that meets no collision was compared with.  One
invariant of the classes follows for every step, and the table is at all times the claims of the
running tasks (`held_perm_running`).
-/

set_option autoImplicit false

namespace Flotestro.HostLocks

open Library List

/-! ## The claims of the contracts -/

/-- A set of claims takes a class once, and what it shares fits the class. -/
structure WellFormed (claims : List ResourceClaim) : Prop where
  nodup : (claims.map ResourceClaim.cls).Nodup
  fits : ∀ claim ∈ claims, claim.mode = .shared → sharedCapacity claim.cls ≠ 0 →
    claimWeight claim ≤ sharedCapacity claim.cls

variable {claims : List ResourceClaim} {l : Locks} {h : Host} {claim : ResourceClaim}
variable {hs : List Holder} {c : ResourceClass}

theorem WellFormed.sortClaims (h : WellFormed claims) : WellFormed (sortClaims claims) := by
  have hperm : (HostLocks.sortClaims claims).Perm claims := perm_insertionSort _ _
  constructor
  · exact (hperm.map _).nodup_iff.mpr h.nodup
  · intro claim hclaim
    exact h.fits claim (hperm.mem_iff.mp hclaim)

/-- The class is one of the registry, not a managed file. -/
def ResourceClass.registered : ResourceClass → Bool
  | .managedFile _ => false
  | _ => true

/-- The claims of an operation before its file is known. -/
def declaredClaims (action : ActionType) : List ResourceClaim :=
  if action.resourceClaims = [] ∧ action.mutating then fallbackClaims action
  else action.resourceClaims

/-- Every operation of the registry claims a class once; what it shares fits. -/
theorem declaredClaims_spec (action : ActionType) :
    ((declaredClaims action).map ResourceClaim.cls).Nodup ∧
      ∀ claim ∈ declaredClaims action, claim.cls.registered = true ∧
        (claim.mode = .shared → sharedCapacity claim.cls ≠ 0 →
          claimWeight claim ≤ sharedCapacity claim.cls) := by
  cases action <;> decide

/-- The class a claim has once the file is known. -/
def ResourceClass.onFile (path : Bytes) (cls : ResourceClass) : ResourceClass :=
  if cls = .file ∧ path ≠ [] then .managedFile path else cls

theorem cls_onFile (path : Bytes) (claim : ResourceClaim) :
    (claim.onFile path).cls = claim.cls.onFile path := by
  unfold ResourceClaim.onFile ResourceClass.onFile
  split <;> rfl

theorem onFile_inj {path : Bytes} {a b : ResourceClass} (ha : a.registered = true)
    (hb : b.registered = true) (h : a.onFile path = b.onFile path) : a = b := by
  unfold ResourceClass.onFile at h
  split at h
  next hafile =>
    split at h
    next hbfile => exact hafile.1.trans hbfile.1.symm
    · subst h
      cases hb
  · split at h
    · subst h
      cases ha
    · exact h

theorem WellFormed.onFile (h : WellFormed claims)
    (hregistered : ∀ claim ∈ claims, claim.cls.registered = true) (path : Bytes) :
    WellFormed (claims.map (ResourceClaim.onFile path)) := by
  constructor
  · have hmap : (claims.map (ResourceClaim.onFile path)).map ResourceClaim.cls =
        (claims.map ResourceClaim.cls).map (ResourceClass.onFile path) := by
      simp [cls_onFile]
    rw [hmap]
    apply h.nodup.map_on
    intro a ha b hb
    obtain ⟨claim, hclaim, rfl⟩ := mem_map.mp ha
    obtain ⟨claim', hclaim', rfl⟩ := mem_map.mp hb
    exact onFile_inj (hregistered claim hclaim) (hregistered claim' hclaim')
  · intro claim hclaim hshared hbound
    obtain ⟨claim, hmem, rfl⟩ := mem_map.mp hclaim
    unfold ResourceClaim.onFile at *
    split at hbound
    · exact absurd rfl hbound
    next hkept =>
      rw [if_neg hkept] at hshared ⊢
      exact h.fits claim hmem hshared hbound

theorem wellFormed_taskClaims (decoded : Option (ActionType × Option Bytes)) :
    WellFormed (taskClaims decoded) := by
  cases decoded with
  | none => exact ⟨by decide, by simp [taskClaims]⟩
  | some d =>
    obtain ⟨hnodup, hspec⟩ := declaredClaims_spec d.1
    have hdeclared : WellFormed (declaredClaims d.1) :=
      ⟨hnodup, fun claim hclaim => (hspec claim hclaim).2⟩
    exact (hdeclared.onFile (fun claim hclaim => (hspec claim hclaim).1) _).sortClaims

/-! ## What the operations do to the holders of a class -/

theorem holders_insert (l : Locks) (a c : ResourceClass) (hs : List Holder) :
    (⟨l.held.insert a hs⟩ : Locks).holders c = if c = a then hs else l.holders c := by
  simp only [Locks.holders, lookup_insert_ite]
  split <;> rfl

theorem holders_erase (l : Locks) (a c : ResourceClass) :
    (⟨l.held.erase a⟩ : Locks).holders c = if c = a then [] else l.holders c := by
  simp only [Locks.holders, lookup_erase_ite]
  split <;> rfl

/-- The holdings a set of claims gives a task in a class. -/
def holdings (task operation : Bytes) (claims : List ResourceClaim) (c : ResourceClass) :
    List Holder :=
  (claims.filter fun claim => claim.cls = c).map (holderOf task operation)

theorem holders_take (l : Locks) (task operation : Bytes) (claims : List ResourceClaim)
    (c : ResourceClass) :
    (l.take task operation claims).holders c = l.holders c ++ holdings task operation claims c := by
  induction claims generalizing l with
  | nil => simp [Locks.take, holdings]
  | cons claim claims ih =>
    have hstep : l.take task operation (claim :: claims) =
      (⟨l.held.insert claim.cls (l.holders claim.cls ++ [holderOf task operation claim])⟩ :
        Locks).take task operation claims := rfl
    rw [hstep, ih, holders_insert]
    by_cases hc : c = claim.cls
    · simp [hc, holdings]
    · simp [hc, holdings, Ne.symm hc]

theorem holders_releaseClass (task : Bytes) (l : Locks) (a c : ResourceClass) :
    (l.releaseClass task a).holders c =
      if c = a then (l.holders c).filter fun x => x.task ≠ task else l.holders c := by
  simp only [Locks.releaseClass, filterInPlace_eq]
  split
  next hkept =>
    rw [holders_erase]
    split
    next hc => rw [hc, hkept]
    · rfl
  · rw [holders_insert]
    split
    next hc => rw [hc]
    · rfl

theorem holders_release (l : Locks) (task : Bytes) (claims : List ResourceClaim)
    (c : ResourceClass) :
    (l.release task claims).holders c =
      if c ∈ claims.map ResourceClaim.cls then (l.holders c).filter fun x => x.task ≠ task
      else l.holders c := by
  unfold Locks.release
  induction claims.map ResourceClaim.cls generalizing l with
  | nil => simp
  | cons a classes ih =>
    rw [foldl_cons, ih, holders_releaseClass]
    by_cases hc : c = a
    · simp [hc]
    · simp [hc]

/-- A claim that can be taken beside the holders of its class. -/
def Admits (claim : ResourceClaim) (hs : List Holder) : Prop :=
  hs = [] ∨ claim.mode = .shared ∧ (∀ x ∈ hs, x.mode = .shared) ∧
    (sharedCapacity claim.cls ≠ 0 → carried hs + claimWeight claim ≤ sharedCapacity claim.cls)

theorem admits_of_classCollision (h : classCollision claim hs = none) : Admits claim hs := by
  cases hs with
  | nil => exact .inl rfl
  | cons first rest =>
    obtain ⟨hmode, h⟩ := of_else h nofun
    split at h
    · cases h
    next hfind =>
      have hall : ∀ x ∈ first :: rest, x.mode = .shared := by
        intro x hx
        simpa using find?_eq_none.mp hfind x hx
      refine .inr ⟨not_not.mp hmode, hall, ?_⟩
      intro hbound
      rw [if_neg hbound] at h
      split at h
      · cases h
      · omega

theorem holders_eq_nil_of_anyHolder (h : l.anyHolder = none) (c : ResourceClass) :
    l.holders c = [] := by
  unfold Locks.holders
  cases hlookup : l.held.lookup c with
  | none => rfl
  | some hs =>
    have hmem : (⟨c, hs⟩ : Sigma fun _ : ResourceClass => List Holder) ∈ l.held.entries :=
      AList.mem_lookup_iff.mp hlookup
    have hnone := findSome?_eq_none_iff.mp h _ hmem
    simpa using hnone

/-- What a set of claims without a collision was compared with: nobody holds the host,
nobody holds anything when the set claims the host, and each class admits its claim. -/
theorem free_of_collision (h : l.collision claims = none) :
    l.holders .host = [] ∧ ∀ claim ∈ claims, (claim.cls = .host → ∀ c, l.holders c = []) ∧
      Admits claim (l.holders claim.cls) := by
  unfold Locks.collision at h
  split at h
  · cases h
  next hhost =>
    refine ⟨hhost, ?_⟩
    intro claim hclaim
    have hnone := findSome?_eq_none_iff.mp h claim hclaim
    obtain ⟨hany, hclass⟩ := Option.or_eq_none_iff.mp hnone
    refine ⟨?_, admits_of_classCollision hclass⟩
    intro hcls
    rw [if_pos hcls] at hany
    exact holders_eq_nil_of_anyHolder hany

theorem acquire_ok {l' : Locks} {task operation : Bytes}
    (h : l.acquire task operation claims = .ok l') :
    l' = l.take task operation claims ∧ (claims = [] ∨ l.collision claims = none) := by
  unfold Locks.acquire at h
  split at h
  next hnil =>
    cases h
    exact ⟨by simp [hnil, Locks.take], .inl hnil⟩
  · split at h
    · cases h
    next hnone =>
      cases h
      exact ⟨rfl, .inr hnone⟩

/-- One exclusive holder, or shared holders within the capacity of the class. -/
def ClassSound (c : ResourceClass) (hs : List Holder) : Prop :=
  (∃ x, hs = [x] ∧ x.mode = .exclusive) ∨
    (∀ x ∈ hs, x.mode = .shared) ∧ (sharedCapacity c ≠ 0 → carried hs ≤ sharedCapacity c)

theorem ClassSound.nil (c : ResourceClass) : ClassSound c [] :=
  .inr ⟨by simp, fun _ => Nat.zero_le _⟩

theorem ClassSound.filter (h : ClassSound c hs) (p : Holder → Bool) :
    ClassSound c (hs.filter p) := by
  rcases h with ⟨x, rfl, hx⟩ | ⟨hshared, hcarried⟩
  · cases hp : p x with
    | true => exact .inl ⟨x, by simp [hp], hx⟩
    | false =>
      have hnil : [x].filter p = [] := by simp [hp]
      rw [hnil]
      exact ClassSound.nil c
  · refine .inr ⟨fun x hx => hshared x (mem_filter.mp hx).1, ?_⟩
    intro hbound
    have hsub : ((hs.filter p).map Holder.weight).Sublist (hs.map Holder.weight) :=
      filter_sublist.map _
    exact (hsub.sum_le_sum fun _ _ => Nat.zero_le _).trans (hcarried hbound)

theorem ClassSound.take (hadmits : Admits claim hs) (task operation : Bytes)
    (hfits : claim.mode = .shared → sharedCapacity claim.cls ≠ 0 →
      claimWeight claim ≤ sharedCapacity claim.cls) :
    ClassSound claim.cls (hs ++ [holderOf task operation claim]) := by
  rcases hadmits with rfl | ⟨hmode, hshared, hcarried⟩
  · cases hmode : claim.mode with
    | exclusive => exact .inl ⟨_, rfl, hmode⟩
    | shared =>
      refine .inr ⟨by simp [holderOf, hmode], ?_⟩
      intro hbound
      simpa [carried, holderOf] using hfits hmode hbound
  · refine .inr ⟨?_, ?_⟩
    · intro x hx
      rcases mem_append.mp hx with hx | hx
      · exact hshared x hx
      · rw [mem_singleton.mp hx]
        exact hmode
    · intro hbound
      simpa [carried, holderOf] using hcarried hbound

/-- Every class is sound, and who holds the host holds alone. -/
structure Locks.Sound (l : Locks) : Prop where
  class_sound : ∀ c, ClassSound c (l.holders c)
  host_alone : ∀ x ∈ l.holders .host, ∀ c, ∀ y ∈ l.holders c, y.task = x.task

theorem sound_newLocks : newLocks.Sound where
  class_sound := ClassSound.nil
  host_alone := by
    intro x hx
    cases hx

theorem Locks.Sound.release (h : l.Sound) (task : Bytes) (claims : List ResourceClaim) :
    (l.release task claims).Sound := by
  have hsub : ∀ c, ∀ x ∈ (l.release task claims).holders c, x ∈ l.holders c := by
    intro c x hx
    rw [holders_release] at hx
    split at hx
    · exact (mem_filter.mp hx).1
    · exact hx
  constructor
  · intro c
    rw [holders_release]
    split
    · exact (h.class_sound c).filter _
    · exact h.class_sound c
  · intro x hx c y hy
    exact h.host_alone x (hsub .host x hx) c y (hsub c y hy)

theorem holdings_of_mem (h : (claims.map ResourceClaim.cls).Nodup) (hclaim : claim ∈ claims)
    (task operation : Bytes) :
    holdings task operation claims claim.cls = [holderOf task operation claim] := by
  have honly : (claims.filter fun claim' => claim'.cls = claim.cls) = [claim] := by
    induction claims with
    | nil => cases hclaim
    | cons a claims ih =>
      obtain ⟨hnotMem, hnodup⟩ := nodup_cons.mp h
      rcases mem_cons.mp hclaim with rfl | hmem
      · have hrest : (claims.filter fun claim' => claim'.cls = claim.cls) = [] := by
          apply filter_eq_nil_iff.mpr
          intro claim' hmem' heq
          exact hnotMem (mem_map.mpr ⟨claim', hmem', by simpa using heq⟩)
        simp [hrest]
      · have hne : a.cls ≠ claim.cls := fun heq =>
          hnotMem (heq ▸ mem_map_of_mem hmem)
        simp [hne, ih hnodup hmem]
  rw [holdings, honly]
  rfl

theorem holdings_of_notMem (h : c ∉ claims.map ResourceClaim.cls) (task operation : Bytes) :
    holdings task operation claims c = [] := by
  unfold holdings
  rw [map_eq_nil_iff, filter_eq_nil_iff]
  intro claim hclaim heq
  exact h (mem_map.mpr ⟨claim, hclaim, by simpa using heq⟩)

theorem Locks.Sound.take (h : l.Sound) (task operation : Bytes) (hclaims : WellFormed claims)
    (hfree : claims = [] ∨ l.collision claims = none) : (l.take task operation claims).Sound := by
  rcases hfree with rfl | hnone
  · exact h
  obtain ⟨hhost, hadmits⟩ := free_of_collision hnone
  constructor
  · intro c
    rw [holders_take]
    by_cases hc : c ∈ claims.map ResourceClaim.cls
    · obtain ⟨claim, hclaim, rfl⟩ := mem_map.mp hc
      rw [holdings_of_mem hclaims.nodup hclaim]
      exact ClassSound.take (hadmits claim hclaim).2 task operation (hclaims.fits claim hclaim)
    · rw [holdings_of_notMem hc, append_nil]
      exact h.class_sound c
  · -- the host is held after the step only by a task that found every class free
    intro x hx c y hy
    rw [holders_take, hhost] at hx
    obtain ⟨claim, hclaim, rfl⟩ := mem_map.mp hx
    obtain ⟨hmem, hcls⟩ := mem_filter.mp hclaim
    have hempty : l.holders c = [] := (hadmits claim hmem).1 (by simpa using hcls) c
    rw [holders_take, hempty] at hy
    obtain ⟨claim', -, rfl⟩ := mem_map.mp hy
    rfl

theorem Step.sound {h' : Host} (hstep : Step h h') (hsound : h.locks.Sound) : h'.locks.Sound := by
  cases hstep with
  | acquire task operation decoded _ taken =>
    obtain ⟨rfl, hfree⟩ := acquire_ok taken
    exact hsound.take task operation (wellFormed_taskClaims decoded) hfree
  | release r _ => exact hsound.release r.task r.claims

theorem Reachable.sound (hreach : Reachable h) : h.locks.Sound := by
  induction hreach with
  | start => exact sound_newLocks
  | step _ hstep ih => exact hstep.sound ih

def Running.holdings (c : ResourceClass) (r : Running) : List Holder :=
  HostLocks.holdings r.task r.operation r.claims c

theorem task_of_mem_holdings {r : Running} {x : Holder} (h : x ∈ r.holdings c) :
    x.task = r.task := by
  obtain ⟨claim, -, rfl⟩ := mem_map.mp h
  rfl

/-- The table is the claims of the running tasks, each of which runs once. -/
structure Host.Tracked (h : Host) : Prop where
  distinct : (h.running.map Running.task).Nodup
  held : ∀ c, (h.locks.holders c).Perm (h.running.flatMap (Running.holdings c))

theorem Host.Tracked.release (ht : h.Tracked) {r : Running} (hr : r ∈ h.running) :
    Host.Tracked ⟨h.locks.release r.task r.claims, h.running.erase r⟩ := by
  have hperm : h.running.Perm (r :: h.running.erase r) := perm_cons_erase hr
  have hdistinct : ((r :: h.running.erase r).map Running.task).Nodup :=
    (hperm.map _).nodup_iff.mp ht.distinct
  obtain ⟨hnotMem, hrest⟩ := nodup_cons.mp hdistinct
  refine ⟨hrest, ?_⟩
  intro c
  have hheld : (h.locks.holders c).Perm
      (r.holdings c ++ (h.running.erase r).flatMap (Running.holdings c)) :=
    (ht.held c).trans (hperm.flatMap_right _)
  have hothers : ((h.running.erase r).flatMap (Running.holdings c)).filter
      (fun x => x.task ≠ r.task) = (h.running.erase r).flatMap (Running.holdings c) := by
    apply filter_eq_self.mpr
    intro x hx
    obtain ⟨s, hs, hxs⟩ := mem_flatMap.mp hx
    have hne : s.task ≠ r.task := fun heq => hnotMem (heq ▸ mem_map_of_mem hs)
    simpa [task_of_mem_holdings hxs] using hne
  rw [holders_release]
  split
  · have hown : (r.holdings c).filter (fun x => x.task ≠ r.task) = [] := by
      apply filter_eq_nil_iff.mpr
      intro x hx
      simp [task_of_mem_holdings hx]
    have hfiltered := hheld.filter fun x => x.task ≠ r.task
    rwa [filter_append, hown, hothers] at hfiltered
  next hc =>
    have hown : r.holdings c = [] := holdings_of_notMem hc r.task r.operation
    rwa [hown] at hheld

theorem Step.tracked {h' : Host} (hstep : Step h h') (ht : h.Tracked) : h'.Tracked := by
  cases hstep with
  | acquire task operation decoded distinct taken =>
    obtain ⟨rfl, -⟩ := acquire_ok taken
    constructor
    · refine nodup_cons.mpr ⟨?_, ht.distinct⟩
      intro hmem
      obtain ⟨r, hr, heq⟩ := mem_map.mp hmem
      exact distinct r hr heq
    · intro c
      rw [holders_take]
      exact perm_append_comm.trans ((ht.held c).append_left _)
  | release r running => exact ht.release running

/-- **The table is the claims of the running tasks**, in every state a host reaches. -/
theorem held_perm_running (hreach : Reachable h) (c : ResourceClass) :
    (h.locks.holders c).Perm (h.running.flatMap (Running.holdings c)) := by
  have htracked : h.Tracked := by
    induction hreach with
    | start => exact ⟨nodup_nil, fun _ => .nil⟩
    | step _ hstep ih => exact hstep.tracked ih
  exact htracked.held c

def Locks.heldBy (l : Locks) (task : Bytes) (c : ResourceClass) : List Holder :=
  (l.holders c).filter fun x => x.task = task

theorem heldBy_release {task other : Bytes} (h : other ≠ task) (claims : List ResourceClaim)
    (c : ResourceClass) : (l.release task claims).heldBy other c = l.heldBy other c := by
  unfold Locks.heldBy
  rw [holders_release]
  split
  · rw [filter_filter]
    apply filter_congr
    intro x _
    by_cases hx : x.task = other
    · simp [hx, h]
    · simp [hx]
  · rfl

/-- **The locks keep tasks apart.**  However acquisitions and releases interleave, a class has one
exclusive holder or shared holders within its capacity, the holder of the host holds alone, and a
release leaves the holdings of every other task as they were.
SOURCE: locks.go:56-173, contract.go:159-213 -/
theorem locks_keep_apart {h : Host} (hreach : Reachable h) :
    (∀ c, (∃ x, h.locks.holders c = [x] ∧ x.mode = .exclusive) ∨
      (∀ x ∈ h.locks.holders c, x.mode = .shared) ∧
        (sharedCapacity c ≠ 0 → carried (h.locks.holders c) ≤ sharedCapacity c)) ∧
    (∀ x ∈ h.locks.holders .host, ∀ c, ∀ y ∈ h.locks.holders c, y.task = x.task) ∧
    ∀ r ∈ h.running, ∀ other, other ≠ r.task → ∀ c,
      (h.locks.release r.task r.claims).heldBy other c = h.locks.heldBy other c := by
  refine ⟨hreach.sound.class_sound, hreach.sound.host_alone, ?_⟩
  intro r _ other hother c
  exact heldBy_release hother r.claims c

/-- The host after a read of the journal, a second one, and the end of the first. -/
def readingHost : Host where
  locks := (newLocks.take [1] [] [⟨.logsRead, .shared, 1⟩]).take [2] [] [⟨.logsRead, .shared, 1⟩]
    |>.release [1] [⟨.logsRead, .shared, 1⟩]
  running := [⟨[2], [], [⟨.logsRead, .shared, 1⟩]⟩]

theorem reachable_readingHost : Reachable readingHost := by
  have hfirst : Reachable ⟨newLocks.take [1] [] [⟨.logsRead, .shared, 1⟩],
      [⟨[1], [], [⟨.logsRead, .shared, 1⟩]⟩]⟩ :=
    .step .start (.acquire [1] [] (some (.readJournal, none)) (by simp) rfl)
  have hsecond := hfirst.step (.acquire [2] [] (some (.readJournal, none)) (by simp) rfl)
  exact hsecond.step (.release ⟨[1], [], [⟨.logsRead, .shared, 1⟩]⟩ (by decide))

theorem locks_keep_apart_reading : (∀ c, ClassSound c (readingHost.locks.holders c)) ∧
      (readingHost.locks.holders .logsRead).map Holder.task = [[2]] :=
  ⟨(locks_keep_apart reachable_readingHost).1, by decide⟩

theorem held_perm_running_reading : (readingHost.locks.holders .logsRead).Perm
      (readingHost.running.flatMap (Running.holdings .logsRead)) :=
  held_perm_running reachable_readingHost .logsRead

end Flotestro.HostLocks
