import Flotestro.Library.Runs

/-!
# Sign-ins with a password

The calls of `SignInWithPassword` for one account.  A call reads the row in one statement, judges the
lock it read, waits for its turn to hash, compares, and counts or clears in another statement; other
calls and the clock go on between any two of these.
-/

set_option autoImplicit false

namespace Flotestro.SignIn

/-- SOURCE: credentials.go:22 -/
def maxFailedSignIns : Nat := 10

/-- In seconds.  SOURCE: credentials.go:26 -/
def lockWindow : Nat := 15 * 60

/-- SOURCE: credentials.go:138 -/
def hashSlots : Nat := 8

/-- What the calls read and write of `local_credentials`. -/
structure Credential where
  failedAttempts : Nat
  lockedUntil : Option Nat

/-- Whether a lock is in force at a moment. -/
def lockedAt (lockedUntil : Option Nat) (now : Nat) : Bool :=
  lockedUntil.any (now < ·)

/-- Where a call is, with what it carries from one statement to the next. -/
inductive Phase where
  | selected (lockedUntil : Option Nat)
  | waiting (lockedUntil : Option Nat)
  | hashing
  | counting (until_ : Nat)
  | clearing
  | signedIn
  | gone
  deriving DecidableEq

/-- A call, with whether its password is the stored one; `late` says that its comparison began
while the account was locked. -/
structure Call where
  right : Bool
  late : Bool
  phase : Phase

/-- The account and its calls; `guesses` is the number of wrong passwords compared since the last
sign-in that succeeded or the last count that left the account locked. -/
structure World where
  now : Nat
  row : Credential
  calls : List Call
  guesses : Nat

/-- A call leaves before its end when the name is unknown, a statement fails or the request is given
up. -/
inductive Event where
  | tick (seconds : Nat)
  | select (right : Bool)
  | next (n : Nat)
  | leave (n : Nat)

namespace World

variable (s : World)

def put (n : Nat) (c : Call) : World := { s with calls := s.calls.set n c }

def locked : Bool := lockedAt s.row.lockedUntil s.now

/-- The statement that counts a wrong password.  SOURCE: credentials.go:190-198 -/
def count (until_ : Nat) : World :=
  let failed := s.row.failedAttempts + 1
  let lock := if maxFailedSignIns ≤ failed then some until_ else s.row.lockedUntil
  { s with row := ⟨failed, lock⟩, guesses := if lockedAt lock s.now then 0 else s.guesses }

/-- The next step of a call.  SOURCE: credentials.go:141-150, 158-216 -/
def advance (n : Nat) (c : Call) : World :=
  match c.phase with
  | .selected lock =>
    s.put n { c with phase := if lockedAt lock s.now then .gone else .waiting lock }
  | .waiting _ =>
    { s.put n { c with late := s.locked, phase := .hashing } with
      guesses := if c.right then s.guesses else s.guesses + 1 }
  | .hashing =>
    s.put n { c with phase := if c.right then .clearing else .counting (s.now + lockWindow) }
  | .counting until_ => (s.count until_).put n { c with phase := .gone }
  | .clearing => { s.put n { c with phase := .signedIn } with row := ⟨0, none⟩, guesses := 0 }
  | .signedIn | .gone => s

/-- A call hashes when it has one of the slots. -/
def turn (c : Call) : Bool :=
  match c.phase with
  | .waiting _ => s.calls.countP (·.phase = .hashing) < hashSlots
  | _ => true

def step : Event → World → Option World
  | .tick seconds, s => some { s with now := s.now + seconds }
  | .select right, s =>
    some { s with calls := s.calls ++ [⟨right, false, .selected s.row.lockedUntil⟩] }
  | .next n, s => s.calls[n]?.bind fun c => if s.turn c then some (s.advance n c) else none
  | .leave n, s => s.calls[n]?.map fun c => s.put n { c with phase := .gone }

/-- An account before its first call. -/
def start (now : Nat) (row : Credential) : World := ⟨now, row, [], 0⟩

end World

end Flotestro.SignIn
