import Flotestro.Library.Runs

/-!
# The refresh of a session's groups

One session of the panel, the provider behind it and the passes over it.  A pass reads the session in
one statement, spends its refresh token at the provider and records the answer in another statement.
The provider gives a new token with each answer and refuses one that was spent.
-/

set_option autoImplicit false

namespace Flotestro.SignIn

/-- The groups of an answer, with the number of the answer at the provider. -/
structure Snapshot where
  groups : List String
  answer : Nat
  deriving DecidableEq

/-- The row of `web_sessions`: a refresh token, the groups, and whether it is revoked. -/
structure Session where
  refreshToken : Nat
  snapshot : Snapshot
  revoked : Bool

structure Provider where
  token : Nat
  answers : Nat
  ended : Bool

/-- Where a pass is: with what it read, with a refusal and whether the provider had ended the session by
then, or with an answer. -/
inductive Pass where
  | asking (refreshToken : Nat) (groups : List String)
  | revoking (ended : Bool)
  | recording (refreshToken : Nat) (groups : List String) (claims : Option Snapshot)
  | gone
  deriving DecidableEq

/-- `wronged` says that the session was revoked on a refusal although the provider had not ended it;
`setBack`, that its groups were replaced by those of an earlier answer. -/
structure Refreshes where
  session : Session
  provider : Provider
  passes : List Pass
  wronged : Bool
  setBack : Bool

inductive RefreshEvent where
  | read
  /-- A pass asks; the provider does not answer, or answers with or without claims. -/
  | ask (n : Nat) (reply : Option (Option (List String)))
  | record (n : Nat) (fails : Bool)
  | end_
  | logout

/-- The sorted lists without repetitions are equal exactly when each list has every group of the
other.  SOURCE: session_refresh.go:197-204 -/
def sameGroupSet (current fresh : List String) : Bool :=
  current.all (fresh.contains ·) && fresh.all (current.contains ·)

namespace Refreshes

variable (s : Refreshes)

def put (n : Nat) (p : Pass) : Refreshes := { s with passes := s.passes.set n p }

/-- SOURCE: session_refresh.go:116-123, 151-167 -/
def ask (n refreshToken : Nat) (groups : List String) : Option (Option (List String)) → Refreshes
  | none => s.put n .gone
  | some claims =>
    if s.provider.ended || refreshToken != s.provider.token then s.put n (.revoking s.provider.ended)
    else
      let answer := s.provider.answers + 1
      { s.put n (.recording (s.provider.token + 1) groups (claims.map (⟨·, answer⟩))) with
        provider := { s.provider with token := s.provider.token + 1, answers := answer } }

/-- SOURCE: sessions.go:250-256 -/
def revoke (ended : Bool) : Refreshes :=
  { s with session := { s.session with revoked := true },
           wronged := s.wronged || (!s.session.revoked && !ended) }

/-- A group set the pass already has is written as the pass read it.
SOURCE: session_refresh.go:169-184, sessions.go:400-448 -/
def recordAnswer (refreshToken : Nat) (groups : List String) (claims : Option Snapshot) : Refreshes :=
  if s.session.revoked then s
  else
    match claims with
    | none => { s with session := { s.session with refreshToken := refreshToken } }
    | some fresh =>
      let snapshot := if sameGroupSet groups fresh.groups then { fresh with groups := groups } else fresh
      { s with session := ⟨refreshToken, snapshot, false⟩,
               setBack := s.setBack || fresh.answer < s.session.snapshot.answer }

def step : RefreshEvent → Refreshes → Option Refreshes
  | .read, s =>
    if s.session.revoked then none
    else some { s with passes := s.passes ++ [.asking s.session.refreshToken s.session.snapshot.groups] }
  | .ask n reply, s =>
    match s.passes[n]? with
    | some (.asking refreshToken groups) => some (s.ask n refreshToken groups reply)
    | _ => none
  | .record n fails, s =>
    match s.passes[n]? with
    | some (.recording refreshToken groups claims) =>
      some ((if fails then s else s.recordAnswer refreshToken groups claims).put n .gone)
    | some (.revoking ended) => some ((if fails then s else s.revoke ended).put n .gone)
    | _ => none
  | .end_, s => some { s with provider := { s.provider with ended := true } }
  | .logout, s => some { s with session := { s.session with revoked := true } }

/-- A session after its sign-in, with the first token and the groups of that answer. -/
def start (groups : List String) : Refreshes := ⟨⟨0, ⟨groups, 0⟩, false⟩, ⟨0, 0, false⟩, [], false, false⟩

end Refreshes

end Flotestro.SignIn
