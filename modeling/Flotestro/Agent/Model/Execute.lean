import Mathlib.Logic.Basic

/-!
# The executor of the agent

The deliveries of one idempotency key.  An execution takes the key, asks the journal for a result and
for an in-flight marker, and goes on to the checks of the task only when there is neither; it writes the
marker down before it asks the helper, and the result replaces the marker.  Every durable step is an
event of its own, and the agent may go down between any two.
-/

set_option autoImplicit false

namespace Flotestro.Agent

/-- The error code of a result; `other` are the codes `Execute` makes no difference between,
the empty one of a success among them.  SOURCE: tasks.go:61-101 -/
inductive Code where
  | resourceBusy
  | sessionEnded
  | canceledBeforeStart
  | outcomeUnknown
  | journalUnavailable
  | other (n : Nat)
  deriving DecidableEq

/-- The codes of a task that is taken not to have reached the host.  SOURCE: tasks.go:278-286 -/
def Code.unsettled : Code → Bool
  | .resourceBusy | .sessionEnded | .canceledBeforeStart => true
  | .outcomeUnknown | .journalUnavailable | .other _ => false

/-- What a delivery is answered with: the result in the journal, what the marker says, the
execution that runs, the result of its own run, or a cancel that came before it. -/
inductive Answer where
  | stored (code : Code)
  | outcomeUnknown
  | inProgress
  | result (code : Code)
  | canceled
  | panicked
  deriving DecidableEq

/-- How `writeAtomically` ended: with no change, with the file in its place and an error, or
with nothing wrong. -/
inductive Write where
  | failed | unsynced | done
  deriving DecidableEq

/-- What the journal holds for the key.  `removed` is a marker whose removal a power cut may
take back. -/
structure Journal where
  result : Option Code
  resultSynced : Bool
  marker : Option Nat
  markerSynced : Bool
  removed : Option Nat

namespace Journal

/-- SOURCE: journal.go:73-77 -/
def writeResult (j : Journal) (code : Code) : Write → Journal
  | .failed => j
  | .unsynced => { j with result := some code, resultSynced := false }
  | .done => { j with result := some code, resultSynced := true }

/-- SOURCE: journal.go:78-80 -/
def removeMarker (j : Journal) : Journal :=
  { j with marker := none, markerSynced := false, removed := j.marker }

/-- SOURCE: journal.go:84-97 -/
def markInFlight (j : Journal) (attempt : Nat) : Write → Journal
  | .failed => j
  | .unsynced => { j with marker := some attempt, markerSynced := false }
  | .done => { j with marker := some attempt, markerSynced := true }

/-- What a crash may take: a result and a marker that were not flushed, and the removal of a
marker. -/
structure Lost where
  result : Bool
  marker : Bool
  removal : Bool

def crash (j : Journal) (lost : Lost) : Journal where
  result := if lost.result && !j.resultSynced then none else j.result
  resultSynced := j.resultSynced
  marker :=
    match j.marker with
    | some m => if lost.marker && !j.markerSynced then none else some m
    | none => if lost.removal then j.removed else none
  markerSynced := j.markerSynced
  removed := none

end Journal

inductive Position where
  | idle
  | claimed
  | lookedUp
  | fresh
  | marked
  | performing
  | ended (code : Code)
  | storing (code : Code) (answer : Answer)
  | removing (answer : Answer)
  | finishing (answer : Answer)
  | returned
  deriving DecidableEq

/-- A delivery; `late` says that the host was already asked for the key when it came. -/
structure Execution where
  attempt : Nat
  mutating : Bool
  late : Bool
  position : Position

structure World where
  journal : Journal
  running : Option Nat
  executions : Nat → Execution
  performs : Nat
  answers : List (Bool × Answer)

/-- The events of a run: deliveries, the steps of their executions with what the host and the
disk make of them, panics in a run, and the end of the process. -/
inductive Event where
  | deliver (d attempt : Nat) (mutating : Bool)
  | refuseCanceled (d : Nat)
  | lookup (d : Nat)
  | inFlight (d : Nat)
  | refuse (d : Nat) (code : Code)
  | mark (d : Nat) (write : Write)
  | perform (d : Nat)
  | performed (d : Nat) (code : Code)
  | settle (d : Nat)
  | store (d : Nat) (write : Write)
  | remove (d : Nat) (removed : Bool)
  | finish (d : Nat)
  | panic (d : Nat)
  | crash (lost : Journal.Lost)

namespace World

variable (s : World)

def pos (d : Nat) : Position := (s.executions d).position

def setExecution (d : Nat) (x : Execution) : World :=
  { s with executions := fun e => if e = d then x else s.executions e }

def move (d : Nat) (position : Position) : World :=
  s.setExecution d { s.executions d with position := position }

/-- The execution answers and gives the key back. -/
def answer (d : Nat) (a : Answer) : World :=
  { s.move d .returned with running := none, answers := ((s.executions d).late, a) :: s.answers }

/-- The deferred function of a run that left without a result settles the marker it finds.
SOURCE: tasks.go:246-260 -/
def unsettled (d : Nat) : World :=
  match s.journal.marker with
  | some _ => s.move d (.storing .outcomeUnknown .panicked)
  | none => s.move d (.finishing .panicked)

/-- SOURCE: tasks.go:194-290, 404-546, inflight.go:75-129 -/
def step : Event → World → Option World
  | .deliver d attempt mutating, s =>
    if s.pos d = .idle then
      if s.running = none then
        some ({ s with running := some d }.setExecution d ⟨attempt, mutating, 0 < s.performs, .claimed⟩)
      else
        -- the key is taken: the delivery is acknowledged and answered as in progress
        some { s.setExecution d ⟨attempt, mutating, 0 < s.performs, .returned⟩ with
          answers := (decide (0 < s.performs), .inProgress) :: s.answers }
    else none
  | .refuseCanceled d, s => if s.pos d = .claimed then some (s.answer d .canceled) else none
  | .lookup d, s =>
    if s.pos d = .claimed then
      match s.journal.result with
      | some code => some (s.answer d (.stored code))
      | none => some (s.move d .lookedUp)
    else none
  | .inFlight d, s =>
    if s.pos d = .lookedUp then
      match s.journal.marker with
      | some _ => some (s.move d (.storing .outcomeUnknown .outcomeUnknown))
      | none => some (s.move d .fresh)
    else none
  | .refuse d code, s => if s.pos d = .fresh then some (s.move d (.ended code)) else none
  | .mark d write, s =>
    if s.pos d = .fresh then
      if (s.executions d).mutating then
        let marked := { s with journal := s.journal.markInFlight (s.executions d).attempt write }
        if write = .done then some (marked.move d .marked)
        else some (marked.move d (.ended .journalUnavailable))
      else some (s.move d .marked)
    else none
  | .perform d, s =>
    if s.pos d = .marked then
      some { s.move d .performing with
        performs := if (s.executions d).mutating then s.performs + 1 else s.performs }
    else none
  | .performed d code, s => if s.pos d = .performing then some (s.move d (.ended code)) else none
  | .settle d, s =>
    match s.pos d with
    | .ended code =>
      if code.unsettled then some (s.move d (.finishing (.result code)))
      else some (s.move d (.storing code (.result code)))
    | _ => none
  | .store d write, s =>
    match s.pos d with
    | .storing code a =>
      let stored := { s with journal := s.journal.writeResult code write }
      if write = .done then some (stored.move d (.removing a)) else some (stored.move d (.finishing a))
    | _ => none
  | .remove d removed, s =>
    match s.pos d with
    | .removing a =>
      some ((if removed then { s with journal := s.journal.removeMarker } else s).move d (.finishing a))
    | _ => none
  | .finish d, s =>
    match s.pos d with
    | .finishing a => some (s.answer d a)
    | _ => none
  | .panic d, s =>
    match s.pos d with
    | .fresh | .marked | .performing | .ended _ => some (s.unsettled d)
    | _ => none
  | .crash lost, s =>
    some { s with
      journal := s.journal.crash lost
      running := none
      executions := fun d =>
        if (s.executions d).position = .idle then s.executions d
        else { s.executions d with position := .returned } }

/-- A journal that holds nothing for the key, and no delivery yet. -/
def start : World := ⟨⟨none, false, none, false, none⟩, none, fun _ => ⟨0, false, false, .idle⟩, 0, []⟩

end World

end Flotestro.Agent
