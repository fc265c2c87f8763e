import Mathlib.Data.List.Basic

/-!
# The notification queue

What keeps a message back, and the statements of the queue: a row for every channel and event, claimed
by a worker under a lease and settled once.  Identifiers are numbers, and every function over the rows
is one statement of the database.
-/

set_option autoImplicit false

namespace Flotestro.Notify

inductive Subject where
  | alertFired | alertResolved | alertNoData | security | other
  deriving DecidableEq

/-- What the queue reads of a composed message. -/
structure Message where
  subject : Subject
  aggregateID : Nat
  hostID : Option Nat
  ruleID : Option Nat

/-- SOURCE: notify.go:517-528 -/
inductive Reason where
  | silence | maintenance | fireKept
  deriving DecidableEq

/-- The verdict that keeps a message back; no verdict lets it go. -/
structure Verdict where
  policyID : Option Nat
  reason : Reason
  deriving DecidableEq

/-- A row of `silences`, in the order of their creation.  SOURCE: router.go:155-162 -/
structure Silence where
  id : Nat
  hostID : Option Nat
  ruleID : Option Nat
  ends : Nat
  global : Bool
  expired : Bool

variable (now : Nat)

def Silence.covers (hostID ruleID : Option Nat) (s : Silence) : Bool :=
  !s.expired && now < s.ends && (s.hostID = none || s.hostID = hostID) &&
    (s.ruleID = none || s.ruleID = ruleID)

/-- The silences in force, the global ones first.  SOURCE: router.go:225-245 -/
def activeSilences (hostID ruleID : Option Nat) (silences : List Silence) : List Silence :=
  let active := silences.filter (Silence.covers now hostID ruleID)
  active.filter (·.global) ++ active.filter (!·.global)

/-- SOURCE: router.go:198-221 -/
def Verdict.decide (subject : Subject) (hostID : Option Nat) (silences : List Silence) (window : Bool) :
    Option Verdict :=
  let applies (s : Silence) : Bool :=
    if subject = .security then s.global else !(s.global && s.hostID = none && s.ruleID = none)
  match silences.find? applies with
  | some s => some ⟨some s.id, .silence⟩
  | none =>
    if window ∧ subject ≠ .security ∧ hostID ≠ none then some ⟨none, .maintenance⟩ else none

/-- The rule is read of the alerts only.  SOURCE: router.go:179-183 -/
def Message.rule (m : Message) : Option Nat :=
  if m.subject = .alertFired ∨ m.subject = .alertResolved ∨ m.subject = .alertNoData then m.ruleID else none

/-- The silences and the maintenance windows, the latter by host and end. -/
structure Policies where
  silences : List Silence
  maintenance : List (Nat × Nat)

/-- SOURCE: router.go:172-195, 250-263 -/
def suppression (policies : Policies) (m : Message) : Option Verdict :=
  let window := policies.maintenance.any fun w => some w.1 = m.hostID && now < w.2
  Verdict.decide m.subject m.hostID (activeSilences now m.hostID m.rule policies.silences) window

/-- SOURCE: notify.go:495-502 -/
inductive State where
  | pending | leased | delivered | retryWait | deadLetter | suppressed
  deriving DecidableEq

/-- A row of `notification_deliveries`.  Its type, its alert and its message are those of its
event. -/
structure Delivery where
  channelID : Nat
  eventID : Nat
  state : State
  attempt : Nat
  nextAttemptAt : Nat
  leaseOwner : Option Nat
  leaseUntil : Option Nat
  policyID : Option Nat
  suppressionReason : Option Reason
  deriving DecidableEq

def Delivery.sameKey (d d' : Delivery) : Bool := d.eventID = d'.eventID && d.channelID = d'.channelID

def updateWhere (p : Delivery → Bool) (f : Delivery → Delivery) (rows : List Delivery) : List Delivery :=
  rows.map fun d => if p d then f d else d

/-- SOURCE: store.go:675-682 -/
def enqueueRow (rows : List Delivery) (row : Delivery) : List Delivery :=
  if rows.any row.sameKey then rows else rows ++ [{ row with nextAttemptAt := now }]

/-- SOURCE: store.go:661-687 -/
def enqueue (rows batch : List Delivery) : List Delivery := batch.foldl (enqueueRow now) rows

def Delivery.due (d : Delivery) : Bool :=
  (d.state = .pending || d.state = .retryWait) && d.nextAttemptAt ≤ now

def Delivery.claimed (now owner lease : Nat) (d : Delivery) : Delivery :=
  { d with
    state := .leased
    leaseOwner := some owner
    leaseUntil := some (now + lease)
    attempt := d.attempt + 1 }

/-- The rows picked are due; those another worker has locked are passed over.
SOURCE: store.go:691-725 -/
def claim (now owner lease : Nat) (picked rows : List Delivery) : List Delivery :=
  updateWhere (fun d => d.due now && picked.any d.sameKey) (Delivery.claimed now owner lease) rows

/-- The condition of the statements of a worker. -/
def Delivery.heldBy (owner : Nat) (row d : Delivery) : Bool :=
  row.sameKey d && d.leaseOwner = some owner && d.state = .leased

/-- SOURCE: store.go:728-737 -/
def renew (now owner lease : Nat) (row : Delivery) (rows : List Delivery) : List Delivery :=
  updateWhere (row.heldBy owner) (fun d => { d with leaseUntil := some (now + lease) }) rows

def Delivery.stale (d : Delivery) : Bool :=
  d.state = .leased && d.leaseUntil.any (· < now)

/-- SOURCE: store.go:741-751 -/
def reclaimStale (rows : List Delivery) : List Delivery :=
  updateWhere (Delivery.stale now)
    (fun d => { d with state := .retryWait, leaseOwner := none, leaseUntil := none, nextAttemptAt := now }) rows

/-- SOURCE: store.go:765-780 -/
def settleSuppressed (owner : Nat) (row : Delivery) (verdict : Verdict) (rows : List Delivery) :
    List Delivery :=
  updateWhere (row.heldBy owner)
    (fun d => { d with
      state := .suppressed
      leaseOwner := none
      leaseUntil := none
      policyID := verdict.policyID
      suppressionReason := some verdict.reason }) rows

/-- What an attempt ended with; a retry names its pause.  SOURCE: store.go:754-760 -/
inductive Outcome where
  | delivered
  | retryWait (nextAttempt : Nat)
  | deadLetter
  deriving DecidableEq

def Delivery.settled (d : Delivery) : Outcome → Delivery
  | .delivered => { d with state := .delivered, leaseOwner := none, leaseUntil := none }
  | .retryWait nextAttempt =>
    { d with
      state := .retryWait
      nextAttemptAt := now + nextAttempt
      leaseOwner := none
      leaseUntil := none }
  | .deadLetter => { d with state := .deadLetter, leaseOwner := none, leaseUntil := none }

/-- SOURCE: store.go:789-826 -/
def settle (now owner : Nat) (row : Delivery) (outcome : Outcome) (rows : List Delivery) : List Delivery :=
  updateWhere (row.heldBy owner) (Delivery.settled now · outcome) rows

/-- The events of the trail by their number; an alert fires before it is resolved. -/
structure Trail where
  message : Nat → Message
  fire_first : ∀ i j, (message i).subject = .alertResolved → (message j).subject = .alertFired →
    (message i).aggregateID = (message j).aggregateID → j < i

/-- SOURCE: router.go:308-324 -/
def fireWasKept (trail : Trail) (rows : List Delivery) (channelID alertID : Nat) : Option Delivery :=
  (rows.filter fun d => d.channelID = channelID && (trail.message d.eventID).aggregateID = alertID &&
    (trail.message d.eventID).subject = .alertFired && d.state = .suppressed).getLast?

/-- SOURCE: router.go:296-304 -/
def keptFire (fire : Option Delivery) : Option Verdict := fire.map fun d => ⟨d.policyID, .fireKept⟩

/-- SOURCE: router.go:283-292 -/
def resolveOfKeptFire (trail : Trail) (rows : List Delivery) (channelID : Nat) (m : Message) :
    Option Verdict :=
  if m.subject = .alertResolved then keptFire (fireWasKept trail rows channelID m.aggregateID) else none

/-- What came of a send: nothing wrong, a fault that passes, with the pause drawn for it, or
one that does not. -/
inductive SendResult where
  | sent
  | passing (pause : Nat)
  | permanent

/-- SOURCE: worker.go:359-417 -/
def classify (maxAttempts attempt : Nat) : SendResult → Outcome
  | .sent => .delivered
  | .passing pause => if attempt ≥ maxAttempts then .deadLetter else .retryWait pause
  | .permanent => .deadLetter

end Flotestro.Notify
