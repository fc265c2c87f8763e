import Flotestro.HelperCap.Model.Binding

/-!
# The secrets a request spends

The payload decides which secrets are expected and the request supplies the bytes.  Each place
the payload names a secret for is held to a receipt: the signature and the clock first, then
the host, the task, the pinned version and the digest of the bytes.
-/

set_option autoImplicit false

namespace Flotestro.HelperCap

open Library

/-- The places of a request that carry the bytes of a secret.
SOURCE: secret_bytes.go:58-97, the texts given to `where` -/
inductive Place where
  | fileContent
  | backupPassword
  | environment (name : Text)
  | privateKey
  | repositoryPassword

/-- SOURCE: secret_bytes.go:47-51 -/
structure SecretSpend where
  place : Place
  reference : SecretRef
  bytes : Text

/-- A place is spent when the payload names a secret for it and the request carries
it. -/
def spend (place : Place) (reference : Option SecretRef) (carried : Bool) (bytes : Text) :
    List SecretSpend :=
  match reference with
  | none => []
  | some r => if !SecretRef.empty (some r) && carried then [⟨place, r, bytes⟩] else []

/-- The environment values of a backup, in the order of their names.
SOURCE: secret_bytes.go:75-87 -/
def spentEnvironment (request : BackupRequest) (payload : BackupPayload) : List SecretSpend :=
  (sortTexts payload.envSecrets.keys.1).filterMap fun name => do
    let reference ← payload.envSecrets.get? name
    let value ← request.env.get? name
    return ⟨.environment name, reference, value⟩

/-- SOURCE: secret_bytes.go:56-100 -/
def spentSecrets (request : HelperRequest) (payload : Payload) : List SecretSpend :=
  match request.action with
  | .file r =>
    match payload.file with
    | none => []
    | some f => spend .fileContent f.contentSecret r.fromSecret r.content
  | .localUser _ => []
  | .backup r =>
    match payload.backup with
    | none => []
    | some b =>
      spend .backupPassword b.passwordSecret (decide (r.password ≠ text "")) r.password ++
        spentEnvironment r b
  | .certificate r =>
    match payload.certificate with
    | none => []
    | some c => spend .privateKey c.keySecret (decide (r.key ≠ text "")) r.key
  | .repository r =>
    match payload.repository with
    | none => []
    | some o => spend .repositoryPassword o.passwordSecret (decide (r.password ≠ text "")) r.password

/-- The receipts of a request by the name of the secret; a receipt without a name and
a name given twice are refused.  SOURCE: secret_bytes.go:28-42 -/
def receiptsByName (found : List (Text × SecretReceipt)) :
    List SecretReceipt → Except Refusal (List (Text × SecretReceipt))
  | [] => .ok found
  | receipt :: rest =>
    if receipt.secretName = text "" then
      .error ⟨.payloadBinding, .wording "a receipt of the request names no secret"⟩
    else if (found.lookup receipt.secretName).isSome then
      .error ⟨.payloadBinding,
        .about "the request carries two receipts for the secret" [receipt.secretName]⟩
    else
      receiptsByName (found ++ [(receipt.secretName, receipt)]) rest

/-- A moment: whole seconds since the year one, as the clock library keeps them, and
nanoseconds. -/
structure Moment where
  seconds : Int64
  nanoseconds : Nat

def Moment.ofUnix (seconds : Int64) : Moment := ⟨seconds + 62135596800, 0⟩

def Moment.add (m : Moment) (seconds : Int64) : Moment := ⟨m.seconds + seconds, m.nanoseconds⟩

def Moment.after (a b : Moment) : Bool :=
  decide (b.seconds < a.seconds ∨ a.seconds = b.seconds ∧ b.nanoseconds < a.nanoseconds)

/-- SOURCE: capability.go:136 -/
def clockSkew : Int64 := 30

/-- SOURCE: receipt.go:32 -/
def receiptTTL : Int64 := 1800

/-- What the verifier reads: the keyring, when it can be read, and the clock. -/
structure Verifier where
  keyring : Option (Dict Text)
  now : Moment

/-- SOURCE: receipt.go:55-60 -/
def verifyReceiptSignature (p : Primitives) (publicKey : Text) (receipt : SecretReceipt)
    (signature : Text) : Bool :=
  if publicKey.1.length ≠ 32 ∨ signature.1.length ≠ 64 then false
  else p.verify publicKey (receiptSigningBytes receipt) signature

/-- SOURCE: receipt.go:110-144 -/
def verifyReceipt (p : Primitives) (v : Verifier) (receipt : SecretReceipt) : Check :=
  match v.keyring with
  | none => .error ⟨.unknownKey, .wording "reading the keyring"⟩
  | some ring =>
    match ring.get? receipt.signedByKeyId with
    | none =>
      .error ⟨.unknownKey,
        .about "the receipt is signed by a key this host does not trust" [receipt.signedByKeyId]⟩
    | some publicKey =>
      if !verifyReceiptSignature p publicKey receipt receipt.signature then
        .error ⟨.badSignature, .wording "the signature of the receipt does not verify"⟩
      else if (Moment.ofUnix receipt.issuedUnix).after (v.now.add clockSkew) then
        .error ⟨.capabilityExpired, .wording "the receipt was issued ahead of this host's clock"⟩
      else if v.now.after ((Moment.ofUnix receipt.issuedUnix).add receiptTTL) then
        .error ⟨.capabilityExpired, .wording "the receipt has expired"⟩
      else .ok ()

/-- One place against its receipt.  SOURCE: secret_bytes.go:113-146 -/
def checkSpend (p : Primitives) (v : Verifier) (capability : HelperCapability)
    (receipts : List (Text × SecretReceipt)) (spent : SecretSpend) : Check :=
  match receipts.lookup spent.reference.name with
  | none =>
    .error ⟨.payloadBinding,
      .about "the request carries no receipt for the bytes of the secret" [spent.reference.name]⟩
  | some receipt => do
    verifyReceipt p v receipt
    if receipt.hostId ≠ capability.hostId then
      .error ⟨.payloadBinding, .about "the receipt names another host than the capability"
        [spent.reference.name, receipt.hostId, capability.hostId]⟩
    if receipt.taskId ≠ capability.taskId then
      .error ⟨.payloadBinding, .about "the receipt names another task than the capability"
        [spent.reference.name, receipt.taskId, capability.taskId]⟩
    if spent.reference.version ≠ 0 ∧ receipt.secretVersion.toUInt64.toInt64 ≠ spent.reference.version then
      .error ⟨.payloadBinding, .about "the receipt is for another version than the consent pinned"
        [spent.reference.name]⟩
    if p.contentDigest spent.bytes ≠ receipt.sha256 then
      .error ⟨.payloadBinding, .about "these are not the bytes the panel released"
        [spent.reference.name]⟩

/-- The places one after another.  SOURCE: secret_bytes.go:113-148 -/
def checkEach (p : Primitives) (v : Verifier) (capability : HelperCapability)
    (receipts : List (Text × SecretReceipt)) : List SecretSpend → Check
  | [] => .ok ()
  | spent :: rest => do
    checkSpend p v capability receipts spent
    checkEach p v capability receipts rest

/-- SOURCE: secret_bytes.go:104-149 -/
def checkSpentSecrets (p : Primitives) (v : Verifier) (request : HelperRequest)
    (capability : HelperCapability) (payload : Payload) : Check :=
  let spent := spentSecrets request payload
  if spent.isEmpty then .ok ()
  else do
    let receipts ← receiptsByName [] request.secretReceipts
    checkEach p v capability receipts spent

end Flotestro.HelperCap
