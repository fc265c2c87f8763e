import Flotestro.Notify.Model.Queue

/-!
# Routers and workers

The routers that hand batches of the trail to the queue and the workers that send its rows, on any
number of instances.  Every event is one read or one statement, so the reads of a decision and the
statement that follows it may stand apart; the silences and the windows change between any two events.
-/

set_option autoImplicit false

namespace Flotestro.Notify

/-- SOURCE: worker.go:43-50 -/
structure Options where
  lease : Nat
  maxAttempts : Nat
  batch : Nat

/-- `Deliver` on its way: the event it is at with the verdict on it, and the rows so far. -/
structure Routing where
  current : Option (Nat × Option Verdict)
  rows : List Delivery

/-- Where a worker is with a row it claimed. -/
inductive Phase where
  | idle
  | renewed (row : Delivery)
  | uncovered (row : Delivery)
  | keeping (row : Delivery) (verdict : Verdict)
  | cleared (row : Delivery)
  | sending (row : Delivery)
  | settling (row : Delivery) (outcome : Outcome)
  deriving DecidableEq

/-- A round: the rows it claimed and has not come to, and the row it is at. -/
structure Work where
  claimed : List Delivery
  phase : Phase

/-- `sent` lists the channels and events a sender was called for. -/
structure World where
  now : Nat
  policies : Policies
  rows : List Delivery
  routers : Nat → Routing
  workers : Nat → Work
  sent : List (Nat × Nat)

/-- The events of a run; which channels an event matches, which due rows a claim gets and what
comes of a send are not for the queue to decide. -/
inductive Event where
  | tick (elapsed : Nat)
  | policies (policies : Policies)
  | suppression (r eventID : Nat)
  | collect (r channelID : Nat)
  | enqueue (r : Nat)
  | giveUp (r : Nat)
  | reclaimStale
  | claim (w : Nat) (picked : List Delivery)
  | renew (w : Nat)
  | recheck (w : Nat)
  | recheckFire (w : Nat)
  | keep (w : Nat)
  | refuse (w : Nat) (result : SendResult)
  | send (w : Nat)
  | renewWhile (w : Nat)
  | lost (w : Nat)
  | answer (w : Nat) (result : SendResult)
  | settle (w : Nat)
  | abandon (w : Nat)

namespace World

variable (s : World)

def route (r : Nat) (routing : Routing) : World :=
  { s with routers := fun i => if i = r then routing else s.routers i }

def work (w : Nat) (work : Work) : World :=
  { s with workers := fun i => if i = w then work else s.workers i }

/-- The worker goes on with the row it is at. -/
def go (w : Nat) (phase : Phase) : World := s.work w ⟨(s.workers w).claimed, phase⟩

/-- The row of an event on a channel.  SOURCE: router.go:91-110 -/
def collected (trail : Trail) (channelID eventID : Nat) (verdict : Option Verdict) : Delivery :=
  match verdict.or (resolveOfKeptFire trail s.rows channelID (trail.message eventID)) with
  | none => ⟨channelID, eventID, .pending, 0, s.now, none, none, none, none⟩
  | some held => ⟨channelID, eventID, .suppressed, 0, s.now, none, none, held.policyID, some held.reason⟩

/-- SOURCE: router.go:63-126, 268-279, worker.go:197-355 -/
def step (trail : Trail) (options : Options) : Event → World → Option World
  | .tick elapsed, s => some { s with now := s.now + elapsed }
  | .policies policies, s => some { s with policies := policies }
  | .suppression r eventID, s =>
    some (s.route r { s.routers r with
      current := some (eventID, Notify.suppression s.now s.policies (trail.message eventID)) })
  | .collect r channelID, s =>
    match (s.routers r).current with
    | none => none
    | some (eventID, verdict) =>
      some (s.route r { s.routers r with
        rows := (s.routers r).rows ++ [s.collected trail channelID eventID verdict] })
  | .enqueue r, s =>
    some ({ s with rows := Notify.enqueue s.now s.rows (s.routers r).rows }.route r ⟨none, []⟩)
  | .giveUp r, s => some (s.route r ⟨none, []⟩)
  | .reclaimStale, s => some { s with rows := Notify.reclaimStale s.now s.rows }
  | .claim w picked, s =>
    -- a round claims once, and the claim returns the rows as it leaves them
    if (s.workers w).phase = .idle ∧ (s.workers w).claimed = [] ∧ picked.length ≤ options.batch ∧
        ∀ d ∈ picked, d ∈ s.rows ∧ d.due s.now = true then
      some ({ s with rows := Notify.claim s.now w options.lease picked s.rows }.work w
        ⟨picked.map (Delivery.claimed s.now w options.lease), .idle⟩)
    else none
  | .renew w, s =>
    match s.workers w with
    | ⟨row :: rest, .idle⟩ =>
      if s.rows.any (row.heldBy w) then
        some ({ s with rows := Notify.renew s.now w options.lease row s.rows }.work w ⟨rest, .renewed row⟩)
      else some (s.work w ⟨rest, .idle⟩)
    | _ => none
  | .recheck w, s =>
    match (s.workers w).phase with
    | .renewed row =>
      match Notify.suppression s.now s.policies (trail.message row.eventID) with
      | some verdict => some (s.go w (.keeping row verdict))
      | none => some (s.go w (.uncovered row))
    | _ => none
  | .recheckFire w, s =>
    match (s.workers w).phase with
    | .uncovered row =>
      match resolveOfKeptFire trail s.rows row.channelID (trail.message row.eventID) with
      | some verdict => some (s.go w (.keeping row verdict))
      | none => some (s.go w (.cleared row))
    | _ => none
  | .keep w, s =>
    match (s.workers w).phase with
    | .keeping row verdict =>
      some ({ s with rows := settleSuppressed w row verdict s.rows }.go w .idle)
    | _ => none
  | .refuse w result, s =>
    -- the channel or its secret cannot be used: nothing is sent
    match (s.workers w).phase with
    | .cleared row => some (s.go w (.settling row (classify options.maxAttempts row.attempt result)))
    | _ => none
  | .send w, s =>
    match (s.workers w).phase with
    | .cleared row =>
      some ({ s with sent := (row.channelID, row.eventID) :: s.sent }.go w (.sending row))
    | _ => none
  | .renewWhile w, s =>
    match (s.workers w).phase with
    | .sending row => some { s with rows := Notify.renew s.now w options.lease row s.rows }
    | _ => none
  | .lost w, s =>
    match (s.workers w).phase with
    | .sending row => if s.rows.any (row.heldBy w) then none else some (s.go w .idle)
    | _ => none
  | .answer w result, s =>
    match (s.workers w).phase with
    | .sending row => some (s.go w (.settling row (classify options.maxAttempts row.attempt result)))
    | _ => none
  | .settle w, s =>
    match (s.workers w).phase with
    | .settling row outcome =>
      some ({ s with rows := Notify.settle s.now w row outcome s.rows }.go w .idle)
    | _ => none
  | .abandon w, s => some (s.work w ⟨[], .idle⟩)

def start (now : Nat) : World := ⟨now, ⟨[], []⟩, [], fun _ => ⟨none, []⟩, fun _ => ⟨[], .idle⟩, []⟩

end World

end Flotestro.Notify
