import Flotestro.RelayInbox.Model.Inbox
import Flotestro.Library.Runs

/-!
# One worker for a message

Deliveries of one message, each at its own place in the code: it claims, asks for the lease where it
has to, works, and notes what became of the message.  What a delivery notes is not tied to its lease,
so that a delivery that outlived it lets a third one in while the second is still at work.  Where only
the delivery that was told last notes anything, there is one worker at a time.
-/

set_option autoImplicit false

namespace Flotestro.RelayInbox

open Library

inductive Phase where
  | outside
  | leasing
  | working (told : Nat)
  | settled
  | answered (answer : Answer)
  deriving DecidableEq

/-- One message and its deliveries; `last` is the delivery that was told to work last. -/
structure Workers (ι δ : Type) where
  now : Nat
  row : Option (Row ι)
  phase : δ → Phase
  last : Option δ

namespace Workers

variable {ι δ : Type} [DecidableEq δ]

inductive Event (ι δ : Type) where
  | tick (elapsed : Nat)
  | claim (d : δ) (me : ι)
  | lease (d : δ) (me : ι)
  | applied (d : δ)
  | failed (d : δ)

def move (s : Workers ι δ) (d : δ) (phase : Phase) : Workers ι δ :=
  { s with phase := fun e => if e = d then phase else s.phase e }

/-- A delivery is told to do the work. -/
def tell (s : Workers ι δ) (d : δ) : Workers ι δ := { s.move d (.working s.now) with last := some d }

/-- One statement of one delivery, or time that passes. -/
def step : Event ι δ → Workers ι δ → Option (Workers ι δ)
  | .tick elapsed, s => some { s with now := s.now + elapsed }
  | .claim d me, s =>
    if s.phase d = .outside then
      let noted := { s with row := noteRow s.now me s.row }
      match claimAnswer s.row with
      | some .fresh => some (noted.tell d)
      | some answer => some (noted.move d (.answered answer))
      | none => some (noted.move d .leasing)
    else none
  | .lease d me, s =>
    if s.phase d = .leasing then
      match RelayInbox.lease s.now me s.row with
      | some row => some ({ s with row := some row }.tell d)
      | none => some (s.move d (.answered .busy))
    else none
  | .applied d, s =>
    match s.phase d with
    | .working _ => some ({ s with row := s.row.map (noteApplied s.now) }.move d .settled)
    | _ => none
  | .failed d, s =>
    match s.phase d with
    | .working _ => some ({ s with row := s.row.map noteFailure }.move d .settled)
    | _ => none

/-- What a delivery notes comes from the one that was told last. -/
def Fenced : Event ι δ → Workers ι δ → Prop
  | .applied d, s | .failed d, s => s.last = some d
  | _, _ => True

instance decidableFenced (e : Event ι δ) (s : Workers ι δ) : Decidable (Fenced e s) := by
  cases e <;> unfold Fenced <;> infer_instance

/-- Nothing was delivered yet. -/
def start (now : Nat) : Workers ι δ := ⟨now, none, fun _ => .outside, none⟩

variable {s s' : Workers ι δ} {e : Event ι δ}

@[simp] theorem move_phase_self (s : Workers ι δ) (d : δ) (p : Phase) : (s.move d p).phase d = p := by
  simp [move]

variable {d : δ} {me : ι} {t : Nat}

theorem move_phase_of_ne (s : Workers ι δ) {f : δ} (h : f ≠ d) (p : Phase) :
    (s.move d p).phase f = s.phase f := by
  simp [move, h]

/-- A delivery at work after a move was at work before, if the move starts none. -/
theorem working_of_move {p : Phase} {f : δ} (h : (s.move d p).phase f = .working t)
    (hp : ∀ t, p ≠ .working t) : f ≠ d ∧ s.phase f = .working t := by
  have hne : f ≠ d := by
    rintro rfl
    rw [move_phase_self] at h
    exact hp t h
  exact ⟨hne, (move_phase_of_ne s hne p).symm.trans h⟩

/-- What a step does: it leaves the row and tells nobody, it tells one delivery, or one that
is at work settles. -/
inductive Effect (s s' : Workers ι δ) : Event ι δ → Prop where
  | tick (elapsed : Nat) (h : s' = { s with now := s.now + elapsed }) : Effect s s' (.tick elapsed)
  | known (e : Event ι δ) (d : δ) (p : Phase) (hp : ∀ t, p ≠ .working t) (h : s' = s.move d p) :
      Effect s s' e
  | first (d : δ) (me : ι) (hrow : s.row = none)
      (h : s' = { s with row := noteRow s.now me none }.tell d) : Effect s s' (.claim d me)
  | leased (d : δ) (me : ι) (row : Row ι) (hrow : s.row = some row) (hstate : row.state = .received)
      (hfree : row.free s.now = true)
      (h : s' = { s with row := some { row with claimedBy := some me, claimedAt := some s.now } }.tell d) :
      Effect s s' (.lease d me)
  | applied (d : δ) (t : Nat) (hd : s.phase d = .working t)
      (h : s' = { s with row := s.row.map (noteApplied s.now) }.move d .settled) :
      Effect s s' (.applied d)
  | failed (d : δ) (t : Nat) (hd : s.phase d = .working t)
      (h : s' = { s with row := s.row.map noteFailure }.move d .settled) : Effect s s' (.failed d)

theorem effect_of_claim (h : step (.claim d me) s = some s') : Effect s s' (.claim d me) := by
  obtain ⟨-, h⟩ := of_then h nofun
  cases hrow : s.row with
  | none =>
    rw [hrow] at h
    exact .first d me hrow (Option.some.inj h).symm
  | some row =>
    -- a row that is there stays as it is, and the answer is its state
    have hsame : ({ s with row := noteRow s.now me s.row } : Workers ι δ) = s := by
      rw [hrow, noteRow, ← hrow]
    rw [hsame, hrow, claimAnswer] at h
    cases hstate : row.state with
    | received | applied | dead =>
      rw [hstate] at h
      exact .known _ d _ (by simp) (Option.some.inj h).symm

theorem effect_of_lease (h : step (.lease d me) s = some s') : Effect s s' (.lease d me) := by
  obtain ⟨-, h⟩ := of_then h nofun
  cases hrow : s.row with
  | none =>
    rw [hrow] at h
    exact .known _ d _ (by simp) (Option.some.inj h).symm
  | some row =>
    rw [hrow, RelayInbox.lease] at h
    by_cases hfree : row.state = .received ∧ row.free s.now = true
    · rw [if_pos hfree] at h
      exact .leased d me row hrow hfree.1 hfree.2 (Option.some.inj h).symm
    · rw [if_neg hfree] at h
      exact .known _ d _ (by simp) (Option.some.inj h).symm

theorem effect_of_step (h : step e s = some s') : Effect s s' e := by
  cases e with
  | tick elapsed => exact .tick elapsed (Option.some.inj h).symm
  | claim d me => exact effect_of_claim h
  | lease d me => exact effect_of_lease h
  | applied d =>
    rw [step] at h
    split at h
    next t hd => exact .applied d t hd (Option.some.inj h).symm
    · cases h
  | failed d =>
    rw [step] at h
    split at h
    next t hd => exact .failed d t hd (Option.some.inj h).symm
    · cases h

/-- The delivery that was told last holds the row as long as it works, and the others at
work were told more than a lease ago. -/
structure Inv (s : Workers ι δ) : Prop where
  empty : s.row = none → ∀ d t, s.phase d ≠ .working t
  holder : ∀ d t, s.last = some d → s.phase d = .working t →
    ∃ row me, s.row = some row ∧ row.state = .received ∧ row.claimedBy = some me ∧
      row.claimedAt = some t
  others : ∀ d t, s.phase d = .working t → s.last ≠ some d → t + inboxLease < s.now

omit [DecidableEq δ] in
theorem inv_start (now : Nat) : Inv (start now : Workers ι δ) := by
  refine ⟨fun _ d t h => ?_, fun d t h => ?_, fun d t h => ?_⟩
  · cases h
  · cases h
  · cases h

theorem Inv.idle {row : Row ι} (hs : Inv s) (hrow : s.row = some row)
    (hfree : row.free s.now = true) (hd : s.phase d = .working t) : t + inboxLease < s.now := by
  by_cases hlast : s.last = some d
  · obtain ⟨row', me, hrow', -, hby, hat⟩ := hs.holder d t hlast hd
    obtain rfl := Option.mem_unique hrow hrow'
    unfold Row.free at hfree
    rw [hby, hat] at hfree
    simpa using hfree
  · exact hs.others d t hd hlast

theorem Inv.tell {row : Row ι} (hstate : row.state = .received) (hby : row.claimedBy = some me)
    (hat : row.claimedAt = some s.now)
    (hidle : ∀ f t, s.phase f = .working t → t + inboxLease < s.now) :
    Inv ({ s with row := some row }.tell d) := by
  refine ⟨fun h => ?_, fun f t hlast hf => ?_, fun f t hf hlast => ?_⟩
  · cases h
  · obtain rfl : d = f := Option.some.inj hlast
    have ht : s.now = t := by simpa [Workers.tell] using hf
    exact ⟨row, me, rfl, hstate, hby, by rw [hat, ht]⟩
  · have hne : f ≠ d := fun heq => hlast (by rw [heq]; rfl)
    exact hidle f t ((move_phase_of_ne _ hne _).symm.trans hf)

theorem Inv.settle (hs : Inv s) (hlast : s.last = some d) (f : Row ι → Row ι) :
    Inv ({ s with row := s.row.map f }.move d .settled) := by
  refine ⟨fun hrow g u hg => ?_, fun g u hlast' hg => ?_, fun g u hg _ => ?_⟩
  · exact hs.empty (Option.map_eq_none_iff.mp hrow) g u (working_of_move hg nofun).2
  · obtain rfl : d = g := Option.mem_unique hlast hlast'
    exact absurd rfl (working_of_move hg nofun).1
  · obtain ⟨hne, hg⟩ := working_of_move hg nofun
    exact hs.others g u hg fun h => hne (Option.mem_unique h hlast)

theorem inv_step (h : step e s = some s') (hfenced : Fenced e s) (hs : Inv s) : Inv s' := by
  cases effect_of_step h with
  | tick elapsed heq =>
    subst heq
    exact ⟨hs.empty, hs.holder, fun d t hd hlast => Nat.lt_add_right elapsed (hs.others d t hd hlast)⟩
  | known e d p hp heq =>
    subst heq
    exact ⟨fun hrow g u hg => hs.empty hrow g u (working_of_move hg hp).2,
      fun g u hlast hg => hs.holder g u hlast (working_of_move hg hp).2,
      fun g u hg hlast => hs.others g u (working_of_move hg hp).2 hlast⟩
  | first d me hrow heq =>
    subst heq
    exact Inv.tell rfl rfl rfl fun f t hf => absurd hf (hs.empty hrow f t)
  | leased d me row hrow hstate hfree heq =>
    subst heq
    exact Inv.tell hstate rfl rfl fun f t hf => hs.idle hrow hfree hf
  | applied d t hd heq | failed d t hd heq =>
    subst heq
    exact hs.settle hfenced _

/-- Whoever is told to work finds the others at work for more than a lease. -/
theorem idle_of_told (hs : Inv s) (h : step e s = some s') (htold : s'.phase d = .working t)
    (hnew : s.phase d ≠ .working t) {f : δ} {u : Nat} (hf : s.phase f = .working u) :
    u + inboxLease < s.now := by
  cases effect_of_step h with
  | tick elapsed heq =>
    subst heq
    exact absurd htold hnew
  | known e g p hp heq =>
    subst heq
    exact absurd (working_of_move htold hp).2 hnew
  | first g me hrow h => exact absurd hf (hs.empty hrow f u)
  | leased g me row hrow hstate hfree h => exact hs.idle hrow hfree hf
  | applied g v hg heq | failed g v hg heq =>
    subst heq
    exact absurd (working_of_move htold nofun).2 hnew

def Applied (s : Workers ι δ) : Prop := ∃ row, s.row = some row ∧ row.state = .applied

/-- Nobody who could note anything about an applied message was told last. -/
theorem applied_step (hs : Inv s) (h : step e s = some s') (hfenced : Fenced e s) (ha : Applied s) :
    Applied s' := by
  obtain ⟨row, hrow, hstate⟩ := ha
  have hnot : ∀ d t, s.last = some d → s.phase d ≠ .working t := by
    intro d t hlast hd
    obtain ⟨row', -, hrow', hreceived, -⟩ := hs.holder d t hlast hd
    obtain rfl := Option.mem_unique hrow hrow'
    rw [hstate] at hreceived
    cases hreceived
  cases effect_of_step h with
  | tick elapsed heq | known e d p hp heq =>
    subst heq
    exact ⟨row, hrow, hstate⟩
  | first d me hnone h =>
    rw [hnone] at hrow
    cases hrow
  | leased d me row' hrow' hreceived hfree h =>
    obtain rfl := Option.mem_unique hrow hrow'
    rw [hstate] at hreceived
    cases hreceived
  | applied d t hd h | failed d t hd h => exact absurd hd (hnot d t hfenced)

theorem claim_of_applied (ha : Applied s) (h : step (.claim d me) s = some s') :
    s'.phase d = .answered .applied := by
  obtain ⟨row, hrow, hstate⟩ := ha
  obtain ⟨-, h⟩ := of_then h nofun
  rw [hrow, claimAnswer, hstate] at h
  cases h
  rw [move_phase_self]

/-- **One worker for a message**, in every run in which what a delivery notes comes from the
one that was told last: who is told to work finds every other delivery at work told more than a lease
ago, and a message that was applied stays so and is answered so. -/
theorem one_worker {es : List (Event ι δ)} {now : Nat} (hes : meets step Fenced es (start now))
    (h : run step es (start now) = some s) :
    (∀ e s', step e s = some s' → ∀ d t, s'.phase d = .working t → s.phase d ≠ .working t →
      ∀ f u, s.phase f = .working u → u + inboxLease < s.now) ∧
    ∀ fs s', meets step Fenced fs s → run step fs s = some s' → Applied s → Applied s' ∧
      ∀ d me s'', step (.claim d me) s' = some s'' → s''.phase d = .answered .applied := by
  have hs : Inv s := run_inv_of_meets inv_step hes h (inv_start now)
  refine ⟨fun e s' hstep d t htold hnew f u hf => idle_of_told hs hstep htold hnew hf,
    fun fs s' hfs hrun ha => ?_⟩
  have ha' : Inv s' ∧ Applied s' := run_inv_of_meets (I := fun t => Inv t ∧ Applied t)
    (fun ht hfenced hi => ⟨inv_step ht hfenced hi.1, applied_step hi.1 ht hfenced hi.2⟩)
    hfs hrun ⟨hs, ha⟩
  exact ⟨ha'.2, fun d me s'' hclaim => claim_of_applied ha'.2 hclaim⟩

/-- The first delivery outlives its lease, and the second asks for the message. -/
def expired : List (Event Nat Nat) := [.claim 1 7, .tick 120000001, .claim 2 8]

def beforeLease : Workers Nat Nat := (run step expired (start 0)).getD (start 0)

theorem one_worker_expired :
    beforeLease.phase 1 = .working 0 ∧ 0 + inboxLease < beforeLease.now := by
  have hrun : run step expired (start 0) = some beforeLease := rfl
  have hmeets : meets step Fenced expired (start 0 : Workers Nat Nat) := by decide
  refine ⟨rfl, (one_worker hmeets hrun).1 (.lease 2 8) _ rfl 2 120000001 rfl ?_ 1 0 rfl⟩
  exact nofun

/-- The first delivery outlives its lease and fails while the second is at work. -/
def outlived : List (Event Nat Nat) :=
  [.claim 1 7, .tick 120000001, .claim 2 8, .lease 2 8, .failed 1, .claim 3 9, .lease 3 9]

/-- A third delivery is told to work at the very moment the second one is. -/
theorem third_worker_let_in :
    (run step outlived (start 0)).map (fun s => (s.phase 2, s.phase 3, s.now)) =
      some (.working 120000001, .working 120000001, 120000001) := by
  decide

end Workers

end Flotestro.RelayInbox
