import Flotestro.Library.Decimal

/-!
# Envelopes and the keys that wrap them

A value is sealed under a data key of its own, and the data key is wrapped under a key of the provider.
AES-GCM is a parameter that opens exactly what it sealed.  An error is the chain the source builds with
`%w`, so that what `errors.Is` finds in it can be read off.
-/

set_option autoImplicit false

namespace Flotestro.Secrets

open Library

def nonceSize : Nat := 12

def overhead : Nat := 16

/-- AES-GCM.  `newCipher` refuses the lengths that are no AES key. -/
structure Gcm (κ : Type) where
  newCipher : Bytes → Option κ
  sealBytes : κ → Bytes → Bytes → Bytes → Bytes
  openBytes : κ → Bytes → Bytes → Bytes → Option Bytes
  length_sealBytes : ∀ k nonce value associated,
    (sealBytes k nonce value associated).length = value.length + overhead
  openBytes_eq_some_iff : ∀ k nonce ciphertext associated value,
    openBytes k nonce ciphertext associated = some value ↔ ciphertext = sealBytes k nonce value associated

/-- SOURCE: model.go:36-46, envelope.go:95-133, provider.go:236-252 -/
inductive Error where
  | keyUnavailable (id : Bytes)
  | nonceLength (length : Nat)
  | ciphertextLength (length : Nat)
  | authentication
  | tooShort (id : Bytes)
  | notOpenUnder (id : Bytes) (cause : Error)
  | notOpenInRow (cause : Error)
  | envelopeVersion (version : Nat)
  | namesNoKey
  | keySize (length : Nat)
  deriving DecidableEq

def Error.isCorruptedVersion : Error → Bool
  | .nonceLength _ | .ciphertextLength _ => true
  | .notOpenUnder _ cause | .notOpenInRow cause => cause.isCorruptedVersion
  | .keyUnavailable _ | .authentication | .tooShort _ | .envelopeVersion _ | .namesNoKey | .keySize _ => false

/-- SOURCE: model.go:291-293 -/
def associatedData (secretID : Bytes) (version : Nat) : Bytes :=
  secretID ++ ascii "|".toList ++ decimal version

variable {κ : Type}

/-- The nonce of an encryption is drawn. -/
abbrev Nonce := {nonce : Bytes // nonce.length = nonceSize}

/-- SOURCE: model.go:255-261 -/
def Gcm.encrypt (g : Gcm κ) (k : κ) (nonce : Nonce) (value secretID : Bytes) (version : Nat) : Bytes :=
  g.sealBytes k nonce.1 value (associatedData secretID version)

/-- SOURCE: model.go:266-289 -/
def Gcm.decrypt (g : Gcm κ) (k : κ) (nonce ciphertext secretID : Bytes) (version : Nat) :
    Except Error Bytes :=
  if nonce.length ≠ nonceSize then .error (.nonceLength nonce.length)
  else if ciphertext.length < overhead then .error (.ciphertextLength ciphertext.length)
  else
    match g.openBytes k nonce ciphertext (associatedData secretID version) with
    | some value => .ok value
    | none => .error .authentication

/-- The keys that are loaded, and the name of the active one. -/
structure Provider (κ : Type) where
  gcm : Gcm κ
  keys : Bytes → Option κ
  active : Bytes

def kekLabel (id : Bytes) : Bytes := ascii "kek:".toList ++ id

namespace Provider

variable (p : Provider κ)

/-- SOURCE: provider.go:208-219 -/
def activeKeyID : Except Error Bytes :=
  if p.active = [] ∨ (p.keys p.active).isNone then .error (.keyUnavailable p.active) else .ok p.active

/-- SOURCE: provider.go:221-234 -/
def wrap (nonce : Nonce) (id dek : Bytes) : Except Error Bytes :=
  match p.keys id with
  | none => .error (.keyUnavailable id)
  | some k => .ok (nonce.1 ++ p.gcm.encrypt k nonce dek (kekLabel id) 0)

/-- SOURCE: provider.go:236-252 -/
def unwrap (id wrapped : Bytes) : Except Error Bytes :=
  match p.keys id with
  | none => .error (.keyUnavailable id)
  | some k =>
    if wrapped.length ≤ nonceSize then .error (.tooShort id)
    else
      match p.gcm.decrypt k (wrapped.take nonceSize) (wrapped.drop nonceSize) (kekLabel id) 0 with
      | .ok dek => .ok dek
      | .error e => .error (.notOpenUnder id e)

end Provider

/-- SOURCE: envelope.go:17-18 -/
def envelopeVersion : Nat := 2

/-- A column that is null reads as empty bytes. -/
structure Envelope where
  version : Nat
  keyID : Bytes
  wrappedDEK : Bytes
  nonce : Bytes
  ciphertext : Bytes
  deriving DecidableEq

/-- `Open`.  SOURCE: envelope.go:97-128 -/
def Envelope.openValue (e : Envelope) (p : Provider κ) (associated : Bytes) : Except Error Bytes := do
  if e.version ≠ envelopeVersion then throw (.envelopeVersion e.version)
  if e.keyID = [] ∨ e.wrappedDEK = [] then throw .namesNoKey
  let dek ← p.unwrap e.keyID e.wrappedDEK
  match p.gcm.newCipher dek with
  | none => throw (.keySize dek.length)
  | some k =>
    if e.nonce.length ≠ nonceSize then throw (.nonceLength e.nonce.length)
    if e.ciphertext.length < overhead then throw (.ciphertextLength e.ciphertext.length)
    match p.gcm.openBytes k e.nonce e.ciphertext associated with
    | some value => return value
    | none => throw (.notOpenInRow .authentication)

/-- SOURCE: envelope.go:131-147 -/
def Envelope.rewrap (e : Envelope) (p : Provider κ) (nonce : Nonce) (toKeyID : Bytes) :
    Except Error Envelope := do
  if e.version ≠ envelopeVersion then throw (.envelopeVersion e.version)
  let dek ← p.unwrap e.keyID e.wrappedDEK
  let wrapped ← p.wrap nonce toKeyID dek
  return { e with keyID := toKeyID, wrappedDEK := wrapped }

end Flotestro.Secrets
