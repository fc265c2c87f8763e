import Flotestro.Library.Delimited
import Flotestro.Library.Decimal

/-!
# What a host key signs

The bytes a host key signs, before they are digested: envelopes, one-time keys and proofs of a renewal;
and the associated data of what is sealed to a host.  A certificate request is a sequence of DER with
nothing behind it.
-/

set_option autoImplicit false

namespace Flotestro.RelayProof

open Library

/-- Fields 1-10 of an envelope. -/
structure Envelope where
  schemaVersion : UInt32
  relayId : Text
  hostId : Text
  certificateSerial : Text
  sessionId : Text
  sequence : UInt64
  issuedAtUnix : Int64
  nonce : Text
  messageKind : Text
  bodySha256 : Text

/-- SOURCE: relayproof.go:69 -/
def envelopePrefix : Bytes := ascii "flotestro-relay-envelope/2\n".toList

/-- SOURCE: relayproof.go:70 -/
def ephemeralPrefix : Bytes := ascii "flotestro-secret-seal-key/1\n".toList

/-- SOURCE: relayproof.go:154-158 -/
def appendUint (out : Bytes) (value : UInt64) : Bytes := out ++ word value

/-- SOURCE: relayproof.go:160-163 -/
def appendBytes (out : Bytes) (value : Text) : Bytes := out ++ chunk value

/-- SOURCE: relayproof.go:138-152 -/
def signingBytes (e : Envelope) : Bytes :=
  let out := appendUint envelopePrefix e.schemaVersion.toUInt64
  let out := appendBytes out e.relayId
  let out := appendBytes out e.hostId
  let out := appendBytes out e.certificateSerial
  let out := appendBytes out e.sessionId
  let out := appendUint out e.sequence
  let out := appendUint out e.issuedAtUnix.toUInt64
  let out := appendBytes out e.nonce
  let out := appendBytes out e.messageKind
  appendBytes out e.bodySha256

/-- SOURCE: relayproof.go:404-414 -/
def ephemeralKeySigningBytes (taskId secretName publicKey : Text) : Bytes :=
  let out := appendBytes ephemeralPrefix taskId
  let out := appendBytes out secretName
  appendBytes out publicKey

/-- The bytes of a number, most significant first. -/
def bigEndian (n : Nat) : Bytes := (putLE (Nat.digits 256 n).length n).reverse

def derLength (n : Nat) : Bytes :=
  if n < 128 then [UInt8.ofNat n]
  else UInt8.ofNat (128 + (bigEndian n).length) :: bigEndian n

def derSequence (content : Text) : Bytes := 48 :: (derLength content.1.length ++ content.1)

/-- A sequence of DER with nothing behind it. -/
structure Der where
  bytes : Bytes
  wellFormed : ∃ content, bytes = derSequence content

/-- SOURCE: relayproof.go:45-46 -/
def challengeSize : Nat := 32

/-- What the digest of a renewal is taken of.  SOURCE: relayproof.go:338-346 -/
def renewalProofBytes (csr : Der) (challenge : List.Vector UInt8 challengeSize) (relayId : Text) :
    Bytes := csr.bytes ++ challenge.toList ++ relayId.1

/-- The things a host key signs. -/
inductive Signed where
  | envelope (e : Envelope)
  | ephemeralKey (taskId secretName publicKey : Text)
  | renewal (csr : Der) (challenge : List.Vector UInt8 challengeSize) (relayId : Text)

def Signed.preimage : Signed → Bytes
  | .envelope e => signingBytes e
  | .ephemeralKey taskId secretName publicKey => ephemeralKeySigningBytes taskId secretName publicKey
  | .renewal csr challenge relayId => renewalProofBytes csr challenge relayId

def isHexDigit (b : UInt8) : Bool := 48 ≤ b && b ≤ 57 || 97 ≤ b && b ≤ 102 || 65 ≤ b && b ≤ 70

def isUuid (s : Bytes) : Bool :=
  s.length = 36 && (List.range 36).all fun i =>
    match s[i]? with
    | none => false
    | some b => if i = 8 ∨ i = 13 ∨ i = 18 ∨ i = 23 then b = 45 else isHexDigit b

def isNameStart (b : UInt8) : Bool := 97 ≤ b && b ≤ 122 || 48 ≤ b && b ≤ 57

/-- SOURCE: secrets/model.go:71-79 -/
def validateName : Bytes → Bool
  | [] => false
  | b :: s => isNameStart b && s.all (fun c => isNameStart c || c = 46 || c = 95 || c = 45) &&
      (1 ≤ s.length && s.length ≤ 62 : Bool)

/-- What is sealed: the value of a release or its receipt. -/
inductive SealedKind where
  | value
  | receipt

/-- What a sealed value or receipt is bound to. -/
structure Release where
  kind : SealedKind
  taskId : Bytes
  secretName : Bytes
  version : UInt32
  taskId_uuid : isUuid taskId = true
  secretName_valid : validateName secretName = true

/-- SOURCE: relayproof.go:433-438 -/
def secretAAD (taskId secretName : Bytes) (version : UInt32) : Bytes :=
  taskId ++ ascii "|".toList ++ secretName ++ ascii "|".toList ++ decimal version.toNat

/-- SOURCE: relayproof.go:440-444 -/
def secretReceiptAAD (taskId secretName : Bytes) (version : UInt32) : Bytes :=
  ascii "receipt|".toList ++ secretAAD taskId secretName version

def Release.aad (r : Release) : Bytes :=
  match r.kind with
  | .value => secretAAD r.taskId r.secretName r.version
  | .receipt => secretReceiptAAD r.taskId r.secretName r.version

end Flotestro.RelayProof
