import Flotestro.Library.Runs

/-!
# Jobs and attempts

The state machine of a job, the tables of jobs and attempts and the operations over them, each one transaction.  What an
operation reads outside the two tables is part of its event: whether the session is open, whether the
fence names the live owner of the host.  A call names a job and an attempt that was once handed out
for it.
-/

set_option autoImplicit false

namespace Flotestro.Jobs

inductive State where
  | planned | awaitingApproval | queued | leased | dispatched | running | cancelRequested
  | succeeded | failed | timedOut | canceled | expired
  deriving DecidableEq

namespace State

/-- SOURCE: state.go:31-45 -/
def transitions : State → List State
  | .planned => [.awaitingApproval, .queued, .canceled, .expired]
  | .awaitingApproval => [.queued, .canceled, .expired]
  | .queued => [.leased, .canceled, .expired]
  | .leased => [.dispatched, .queued, .canceled, .expired, .failed]
  | .dispatched =>
    [.running, .succeeded, .failed, .timedOut, .canceled, .expired, .queued, .cancelRequested]
  | .running => [.succeeded, .failed, .timedOut, .canceled, .queued, .cancelRequested]
  | .cancelRequested => [.canceled, .running, .succeeded, .failed, .timedOut]
  | _ => []

/-- SOURCE: state.go:47-55 -/
def terminal : State → Bool
  | .succeeded | .failed | .timedOut | .canceled | .expired => true
  | _ => false

/-- SOURCE: state.go:67-76 -/
def validate (s next : State) : Bool := s = next || s.transitions.contains next

/-- SOURCE: state.go:82-90 -/
def holdsLease : State → Bool
  | .leased | .dispatched | .running | .cancelRequested => true
  | _ => false

end State

/-- SOURCE: state.go:102-115 -/
inductive ResultFate where
  | settles | afterSettlement | unapplicable
  deriving DecidableEq

/-- SOURCE: state.go:117-145 -/
def fateOfResult (current asked : State) (afterLeaseExpiry : Bool) : ResultFate :=
  if current.terminal then .afterSettlement
  else if afterLeaseExpiry then .settles
  else if !current.validate asked then .unapplicable
  else .settles

/-- SOURCE: state.go:147-150 -/
def ResultFate.closesTheAttempt (f : ResultFate) : Bool := f = .afterSettlement

/-- The status of a result as the agent's report is read.
SOURCE: gateway/agent_service.go:1682-1699 -/
inductive ResultStatus where
  | succeeded | timedOut | expired | canceled | rejected | failed

/-- The status written on an attempt; none is the empty one.  SOURCE: store.go:943-955 -/
inductive AttemptStatus where
  | result (status : ResultStatus)
  | released | leaseExpired | superseded

/-- Whether a result is recorded on an attempt and whether it supersedes the others.
SOURCE: store.go:972-983 -/
def lateResultDisposition : Option AttemptStatus → Bool × Bool
  | some .superseded => (false, false)
  | some .leaseExpired => (true, true)
  | _ => (true, false)

inductive CancelOutcome where
  | notStarted | interrupted | notInterruptible | alreadyDone

/-- A row of `jobs`, as far as the operations read it; moments are in microseconds. -/
structure Job where
  id : Nat
  host : Nat
  /-- The action is a restart of the host. -/
  reboot : Bool
  state : State
  expiresAt : Int
  timeout : Int
  cancelRevision : Nat
  cancelRequestedAt : Option Int

/-- A row of `job_attempts`, as far as the operations read it. -/
structure Attempt where
  id : Nat
  job : Nat
  number : Nat
  leaseExpiresAt : Option Int
  accepted : Bool
  finished : Bool
  status : Option AttemptStatus

structure Store where
  now : Int
  jobs : List Job
  attempts : List Attempt

def rebootReturnGrace : Int := 600000000

def Attempt.carries (job : Nat) (a : Attempt) : Bool := a.job = job && !a.finished

def Attempt.closed (status : AttemptStatus) (a : Attempt) : Attempt :=
  { a with finished := true, status := some status, leaseExpiresAt := none }

namespace Store

variable (s : Store)

def updateJobs (p : Job → Bool) (next : Job → State) : Store :=
  { s with jobs := s.jobs.map fun j => if p j then { j with state := next j } else j }

def updateAttempts (p : Attempt → Bool) (f : Attempt → Attempt) : Store :=
  { s with attempts := s.attempts.map fun a => if p a then f a else a }

def job? (id : Nat) : Option Job := s.jobs.find? fun j => j.id = id

def attempt? (id : Nat) : Option Attempt := s.attempts.find? fun a => a.id = id

def jobOf (a : Attempt) (host : Nat) (p : State → Bool) : Bool :=
  s.jobs.any fun j => j.id = a.job && j.host = host && p j.state

/-! ## Leases -/

def taken (ids : List Nat) : List Job :=
  s.jobs.filter fun j => j.state = .queued && ids.contains j.id && s.now < j.expiresAt

def maxNumber (job : Nat) : Nat :=
  ((s.attempts.filter fun a => a.job = job).map Attempt.number).foldl max 0

/-- `fresh` gives the identifier of the new attempt of a job.  SOURCE: store.go:535-601 -/
def leaseJobs (ids : List Nat) (lease : Int) (fresh : Nat → Nat) : Store :=
  { s with
    jobs := s.jobs.map fun j =>
      if j.state = .queued && ids.contains j.id && s.now < j.expiresAt then
        { j with state := .leased }
      else j
    attempts := s.attempts ++ (s.taken ids).map fun j =>
      { id := fresh j.id
        job := j.id
        number := s.maxNumber j.id + 1
        leaseExpiresAt := some (s.now + lease)
        accepted := false
        finished := false
        status := none } }

variable (job attempt : Nat)

/-- SOURCE: store.go:625-685, store.go:717-740 -/
def markDispatched (session fence : Bool) (lease : Int) : Store :=
  if !session || !fence then s
  else
    let moved := s.updateJobs (fun j => j.id = job && j.state = .leased) fun _ => .dispatched
    let recorded := moved.updateAttempts (fun a => a.id = attempt) fun a =>
      { a with
        leaseExpiresAt :=
          if a.accepted then a.leaseExpiresAt
          -- least() passes over a null
          else some ((a.leaseExpiresAt.map fun u => min u (s.now + lease)).getD (s.now + lease)) }
    match s.job? job with
    | none => s
    | some j =>
      if j.state = .leased || j.state = .dispatched || j.state = .running ||
          j.state = .cancelRequested then recorded
      else s

/-- SOURCE: store.go:687-715 -/
def recordHandover (job : Nat) : Store :=
  s.updateJobs (fun j => j.id = job && j.state = .leased) fun _ => .dispatched

/-- SOURCE: store.go:742-777 -/
def acceptAttempt (attempt host : Nat) (lease : Int) : Store :=
  s.updateAttempts
    (fun a => a.id = attempt && !a.finished && a.leaseExpiresAt.isSome &&
      s.jobOf a host fun t => t = .leased || t = .dispatched || t = .running)
    fun a =>
      { a with
        accepted := true
        leaseExpiresAt := a.leaseExpiresAt.map fun u => max u (s.now + lease) }

/-- SOURCE: store.go:803-850 -/
def markRunning (attempt host : Nat) : Store :=
  match s.attempts.find? fun a => a.id = attempt && !a.finished &&
      s.jobOf a host fun t => t = .leased || t = .dispatched with
  | none => s
  | some a => s.updateJobs (fun j => j.id = a.job) fun _ => .running

/-- The host may have taken the task meanwhile; then nothing is written. -/
def giveUp (next : State) (status : AttemptStatus) : Store :=
  if s.jobs.any fun j => j.id = job && (j.state = .leased || j.state = .dispatched) then
    (s.updateJobs (fun j => j.id = job && (j.state = .leased || j.state = .dispatched))
      fun _ => next).updateAttempts (fun a => a.id = attempt) (Attempt.closed status)
  else s

/-- SOURCE: store.go:852-885 -/
def failUndelivered : Store :=
  s.giveUp job attempt .failed (.result .failed)

/-- SOURCE: store.go:887-920 -/
def releaseLease : Store :=
  s.giveUp job attempt .queued .released

/-- SOURCE: store.go:922-941 -/
def renewAttemptLease (attempt host : Nat) (extension : Int) : Store :=
  s.updateAttempts
    (fun a => a.id = attempt && !a.finished && a.leaseExpiresAt.isSome &&
      s.jobOf a host State.holdsLease)
    fun a => { a with leaseExpiresAt := a.leaseExpiresAt.map fun u => max u (s.now + extension) }

/-! ## Settling -/

/-- A result that would settle an open job; only the owner of the host may do that. -/
def settle (asked : State) (status : ResultStatus)
    (supersedes : Bool) : Store :=
  let recorded := s.updateAttempts (fun a => a.id = attempt) (Attempt.closed (.result status))
  let superseded :=
    if supersedes then
      recorded.updateAttempts (fun a => a.carries job && a.id ≠ attempt) (Attempt.closed .superseded)
    else recorded
  superseded.updateJobs (fun j => j.id = job) fun _ => asked

/-- SOURCE: store.go:1004-1135 -/
def recordResult (asked : State) (status : ResultStatus)
    (fence : Bool) : Store :=
  match s.job? job, s.attempt? attempt with
  | some j, some a =>
    let (record, supersedes) := lateResultDisposition a.status
    if !record then s
    else
      let fate := fateOfResult j.state asked supersedes
      if fate = .settles then
        if fence then s.settle job attempt asked status supersedes else s
      else if a.status = none && fate.closesTheAttempt then
        s.updateAttempts (fun b => b.id = attempt && !b.finished) (Attempt.closed (.result status))
      else s
  | _, _ => s

/-- The lease of an open attempt ran out under a job that holds it; a restart is waited for
longer. -/
def overdue (a : Attempt) : Bool :=
  !a.finished && s.jobs.any fun j => j.id = a.job && j.state.holdsLease &&
    match a.leaseExpiresAt with
    | none => false
    | some u => u < if j.reboot then s.now - rebootReturnGrace else s.now

/-- The job lost its lease, or holds one with no attempt to carry it. -/
def reclaimed (j : Job) : Bool :=
  (s.attempts.any fun a => a.job = j.id && s.overdue a) ||
    (j.state.holdsLease && !s.attempts.any (Attempt.carries j.id))

/-- SOURCE: store.go:1163-1258 -/
def reclaimExpiredLeases : Store :=
  let closed := s.updateAttempts s.overdue (Attempt.closed .leaseExpired)
  { closed with
    jobs := (s.updateJobs s.reclaimed fun j =>
      if j.reboot then .failed else if j.state = .cancelRequested then .failed else .queued).jobs }

/-- SOURCE: store.go:1260-1283 -/
def expireOverdue : Store :=
  s.updateJobs
    (fun j => (j.state = .planned || j.state = .awaitingApproval || j.state = .queued) &&
      j.expiresAt ≤ s.now)
    fun _ => .expired

/-- SOURCE: cancel.go:193-281 -/
def recordCancelAck (job revision : Nat) (outcome : CancelOutcome) (fence : Bool) :
    Store :=
  if !fence then s
  else
    let asked := fun j : Job =>
      j.id = job && j.cancelRevision = revision && j.state = .cancelRequested
    match outcome with
    | .notStarted | .interrupted => s.updateJobs asked fun _ => .canceled
    | .notInterruptible => s.updateJobs asked fun _ => .running
    | .alreadyDone => s

/-- Nobody answered the cancel in time. -/
def unanswered (j : Job) : Bool :=
  j.state = .cancelRequested &&
    match j.cancelRequestedAt with
    | none => false
    | some t => t + j.timeout < s.now

/-- SOURCE: cancel.go:298-335 -/
def settleCancelTimeouts : Store :=
  { s with
    jobs := (s.updateJobs s.unanswered fun _ => .failed).jobs
    attempts := (s.updateAttempts
      (fun a => !a.finished && s.jobs.any fun j => j.id = a.job && s.unanswered j)
      (Attempt.closed (.result .failed))).attempts }

end Store

inductive Event where
  | tick (d : Nat)
  | leaseJobs (ids : List Nat) (lease : Int) (fresh : Nat → Nat)
  | markDispatched (job attempt : Nat) (session fence : Bool) (lease : Int)
  | recordHandover (job attempt : Nat)
  | acceptAttempt (attempt host : Nat) (lease : Int)
  | markRunning (attempt host : Nat)
  | releaseLease (job attempt : Nat)
  | failUndelivered (job attempt : Nat)
  | renewAttemptLease (attempt host : Nat) (extension : Int)
  | recordResult (job attempt : Nat) (asked : State) (status : ResultStatus) (fence : Bool)
  | reclaimExpiredLeases
  | expireOverdue
  | recordCancelAck (job revision : Nat) (outcome : CancelOutcome) (fence : Bool)
  | settleCancelTimeouts

namespace Store

def handed (s : Store) (job attempt : Nat) : Bool :=
  s.attempts.any fun a => a.id = attempt && a.job = job

/-- The identifiers of new attempts are new. -/
def freshFor (s : Store) (ids : List Nat) (fresh : Nat → Nat) : Bool :=
  decide ((s.taken ids).map fun j => fresh j.id).Nodup &&
    (s.taken ids).all fun j => s.attempts.all fun a => a.id ≠ fresh j.id

/-- One call; a result asks for one of the final states. -/
def step : Event → Store → Option Store
  | .tick d, s => some { s with now := s.now + d }
  | .leaseJobs ids lease fresh, s =>
    if s.freshFor ids fresh then some (s.leaseJobs ids lease fresh) else none
  | .markDispatched job attempt session fence lease, s =>
    if s.handed job attempt then some (s.markDispatched job attempt session fence lease) else none
  | .recordHandover job attempt, s =>
    if s.handed job attempt then some (s.recordHandover job) else none
  | .acceptAttempt attempt host lease, s => some (s.acceptAttempt attempt host lease)
  | .markRunning attempt host, s => some (s.markRunning attempt host)
  | .releaseLease job attempt, s =>
    if s.handed job attempt then some (s.releaseLease job attempt) else none
  | .failUndelivered job attempt, s =>
    if s.handed job attempt then some (s.failUndelivered job attempt) else none
  | .renewAttemptLease attempt host extension, s =>
    some (s.renewAttemptLease attempt host extension)
  | .recordResult job attempt asked status fence, s =>
    if s.handed job attempt && asked.terminal then
      some (s.recordResult job attempt asked status fence)
    else none
  | .reclaimExpiredLeases, s => some s.reclaimExpiredLeases
  | .expireOverdue, s => some s.expireOverdue
  | .recordCancelAck job revision outcome fence, s =>
    some (s.recordCancelAck job revision outcome fence)
  | .settleCancelTimeouts, s => some s.settleCancelTimeouts

end Store

end Flotestro.Jobs
