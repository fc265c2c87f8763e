import Flotestro.Library.Runs

/-!
# Consent to a campaign

The row of one campaign, the plans of its hosts, the planning passes that replace both, and the
approval requests.  A request reads the row and compares the fingerprint it was sent with the one it
read; its transaction then asks only for the state.  Every statement is one event; the row is locked
from the approving statement to the end of its transaction.
-/

set_option autoImplicit false

namespace Flotestro.Consent

open Library

variable {ι δ : Type}

/-- The digests of a campaign's plans by host.  SOURCE: store.go:822-841 -/
abbrev Plans (ι δ : Type) := ι → Option δ

/-- A fingerprint, by what it was computed from: the digests taken as injective.
SOURCE: model.go:444-548, planning.go:952-959 -/
inductive Fingerprint (ι δ : Type) where
  /-- The request alone: the operation, its payload, the hosts and the rollout. -/
  | request (order : Nat)
  | withPlans (base : Fingerprint ι δ) (plans : Plans ι δ)

def Fingerprint.plans : Fingerprint ι δ → Plans ι δ
  | .request _ => fun _ => none
  | .withPlans _ plans => plans

/-- The states an approval tells apart. -/
inductive State where
  | planning | awaitingApproval | planned | ended
  deriving DecidableEq

/-- How far a planning pass has come.  SOURCE: planning.go:530-567 -/
inductive Pass (ι δ : Type) where
  /-- It works on a campaign read with the fingerprint. -/
  | working (base : Fingerprint ι δ)
  /-- It has read the plans too. -/
  | hasPlans (base : Fingerprint ι δ) (plans : Plans ι δ)
  | over_

/-- The record of an approval with its plans, and the fingerprint the approver sent.
SOURCE: store.go:371-402, approval.go:28-55 -/
structure Record (ι δ : Type) where
  sent : Fingerprint ι δ
  fingerprint : Fingerprint ι δ
  plans : Plans ι δ

/-- How far an approval request has come.  SOURCE: campaigns.go:1402-1533 -/
inductive Request (ι δ : Type) where
  /-- What was sent is what was read. -/
  | compared (sent : Fingerprint ι δ)
  /-- The approving statement has returned the fingerprint of the row. -/
  | approved (sent fingerprint : Fingerprint ι δ)
  /-- The plans were inserted. -/
  | attached (record : Record ι δ)
  | over_

structure World (ι δ : Type) where
  state : State
  fingerprint : Fingerprint ι δ
  plans : Plans ι δ
  /-- The request whose transaction has the row. -/
  lock : Option Nat
  passes : List (Pass ι δ)
  requests : List (Request ι δ)
  records : List (Record ι δ)

inductive Event (ι δ : Type) where
  /-- A planning pass reads the campaign. -/
  | plan
  /-- `SavePlan`, or the transaction of `acceptPlan`. -/
  | savePlan (host : ι) (digest : δ)
  | readPlans (n : Nat)
  /-- `FinishPlanning`; the campaign may ask for no approval. -/
  | finishPlanning (n : Nat) (requiresApproval : Bool)
  /-- An approval request reads the campaign, sent the fingerprint it reads. -/
  | compare
  | approve (n : Nat)
  | attach (n : Nat)
  | commit (n : Nat)
  /-- A pass or a request breaks off. -/
  | dropPass (n : Nat)
  | dropRequest (n : Nat)
  /-- The campaign is canceled, expires, or fails to plan. -/
  | leave

namespace World

/-- A campaign as it was created.  SOURCE: store.go:98-106 -/
def created (state : State) (order : Nat) : World ι δ where
  state := state
  fingerprint := .request order
  plans := fun _ => none
  lock := none
  passes := []
  requests := []
  records := []

def setPass (w : World ι δ) (n : Nat) (p : Pass ι δ) : World ι δ :=
  { w with passes := w.passes.set n p }

def setRequest (w : World ι δ) (n : Nat) (r : Request ι δ) : World ι δ :=
  { w with requests := w.requests.set n r }

/-- The row is given back by the request that has it. -/
def unlock (w : World ι δ) (n : Nat) : World ι δ :=
  if w.lock = some n then { w with lock := none } else w

/-- SOURCE: store.go:894-913, planning.go:552-561 -/
def finishPlanning (w : World ι δ) (base : Fingerprint ι δ) (plans : Plans ι δ)
    (requiresApproval : Bool) : World ι δ :=
  if w.state = .planning then
    { w with
      fingerprint := .withPlans base plans
      state := if requiresApproval then .awaitingApproval else .planned }
  else w

/-- SOURCE: store.go:371-383 -/
def approve (w : World ι δ) (n : Nat) (sent : Fingerprint ι δ) : World ι δ :=
  if w.state = .awaitingApproval then
    { w.setRequest n (.approved sent w.fingerprint) with lock := some n }
  else w.setRequest n .over_

variable [DecidableEq ι]

def step : Event ι δ → World ι δ → Option (World ι δ)
  | .plan, w =>
    if w.state = .planning then
      some { w with passes := w.passes ++ [.working w.fingerprint] }
    else none
  | .savePlan host digest, w =>
    some { w with plans := fun h => if h = host then some digest else w.plans h }
  | .readPlans n, w =>
    match w.passes[n]? with
    | some (.working base) => some (w.setPass n (.hasPlans base w.plans))
    | _ => none
  | .finishPlanning n requiresApproval, w =>
    match w.passes[n]?, w.lock with
    | some (.hasPlans base plans), none =>
      some ((w.finishPlanning base plans requiresApproval).setPass n .over_)
    | _, _ => none
  | .compare, w => some { w with requests := w.requests ++ [.compared w.fingerprint] }
  | .approve n, w =>
    match w.requests[n]?, w.lock with
    | some (.compared sent), none => some (w.approve n sent)
    | _, _ => none
  | .attach n, w =>
    match w.requests[n]? with
    | some (.approved sent fingerprint) =>
      some (w.setRequest n (.attached ⟨sent, fingerprint, w.plans⟩))
    | _ => none
  | .commit n, w =>
    match w.requests[n]? with
    | some (.attached record) =>
      some ({ w with state := .planned, records := w.records ++ [record], lock := none }.setRequest n
        .over_)
    | _ => none
  | .dropPass n, w => some (w.setPass n .over_)
  | .dropRequest n, w => some ((w.unlock n).setRequest n .over_)
  | .leave, w => if w.lock = none then some { w with state := .ended } else none

end World

/-- The consent covers what the approver saw. -/
structure Record.Covers (r : Record ι δ) : Prop where
  sent : r.fingerprint = r.sent
  plans : r.plans = r.fingerprint.plans

end Flotestro.Consent
