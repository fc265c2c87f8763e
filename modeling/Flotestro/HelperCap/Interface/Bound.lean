import Flotestro.HelperCap.Model.Secrets

/-!
# What a signature is meant to decide

Two messages agree when they are of one kind and hold the same value in every field the signature of that
kind covers; two orders when they are of one kind and equal, the environment names of a backup up to
their order.

A payload decides the rest.  For an account: two requests order the same change, list order aside.  For a secret: the
bytes a request carries where a secret goes are bytes the panel released for this host, this
task and the secret the payload names there.
-/

set_option autoImplicit false

namespace Flotestro.HelperCap

open Library

/-- The receipts agree in every field but the signature. -/
def SecretReceipt.SameSigned (a b : SecretReceipt) : Prop :=
  a.hostId = b.hostId ∧ a.taskId = b.taskId ∧ a.secretName = b.secretName ∧
    a.secretVersion = b.secretVersion ∧ a.sha256 = b.sha256 ∧ a.issuedUnix = b.issuedUnix ∧
    a.signedByKeyId = b.signedByKeyId

/-- The bundles agree in every field but the signature. -/
def HelperTrustBundle.SameSigned (a b : HelperTrustBundle) : Prop :=
  a.hostId = b.hostId ∧ a.issuedUnix = b.issuedUnix ∧ a.signedByKeyId = b.signedByKeyId ∧
    a.keys = b.keys

/-- The acknowledgements are for one host and agree in the attempt, the key, the
status and the reason. -/
def TaskResultAck.SameSigned (hostID : Text) (a : TaskResultAck) (hostID' : Text)
    (b : TaskResultAck) : Prop :=
  hostID = hostID' ∧ a.taskId = b.taskId ∧ a.idempotencyKey = b.idempotencyKey ∧
    a.status = b.status ∧ a.reasonCode = b.reasonCode

/-- One kind, and the same value in every signed field. -/
def Message.Agree : Message → Message → Prop
  | .capability a, .capability b => a = b
  | .receipt a, .receipt b => a.SameSigned b
  | .trustBundle a, .trustBundle b => a.SameSigned b
  | .resultAck hostID a, .resultAck hostID' b => TaskResultAck.SameSigned hostID a hostID' b
  | .resultDigest hostID a, .resultDigest hostID' b =>
    TaskResultAck.SameSigned hostID a hostID' b ∧ a.resultDigest = b.resultDigest
  | _, _ => False

/-- The backup orders are equal, the environment names up to their order. -/
def BackupOrder.Agree (a b : BackupOrder) : Prop :=
  a = { b with envNames := a.envNames } ∧ a.envNames.1.Perm b.envNames.1

/-- One kind, equal fields and equal lists. -/
def Order.Agree : Order → Order → Prop
  | .package a, .package b => a = b
  | .repository a, .repository b => a = b
  | .backup a, .backup b => a.Agree b
  | _, _ => False

/-- Primitives for evaluation: a text stands for its own digest, and every signature
of one message verifies. -/
def plainPrimitives (m : Message) : Primitives where
  sum := id
  sum_injective := Function.injective_id
  verify _ bytes _ := decide (bytes = m.bytes)

def emptyReceipt : SecretReceipt where
  hostId := text ""
  taskId := text ""
  secretName := text ""
  secretVersion := 0
  sha256 := text ""
  issuedUnix := 0
  signedByKeyId := text ""
  signature := text ""

/-- The requests agree, list order aside, in every field an operation reads. -/
structure SameOrder (a b : LocalUserActionRequest) : Prop where
  name : a.name = b.name
  sshKeys : a.sshKeys.Perm b.sshKeys
  keys : a.keys.Perm b.keys
  fingerprints : a.fingerprints.Perm b.fingerprints
  expectedFingerprints : a.expectedFingerprints.Perm b.expectedFingerprints
  groups : a.groups.Perm b.groups
  shell : a.shell = b.shell
  gecos : a.gecos = b.gecos
  expiresAt : a.expiresAt = b.expiresAt
  createHome : a.createHome = b.createHome
  removeHome : a.removeHome = b.removeHome
  allowLockout : a.allowLockout = b.allowLockout
  system : a.system = b.system
  ignoreMissing : a.ignoreMissing = b.ignoreMissing
  managedFile : a.managedFile = b.managedFile
  inactive : a.inactive = b.inactive

/-- The requests agree in the fields the binding does not compare: the comments of
the keys, the fingerprints the operator saw, the description of the account and the
permissions. -/
structure SameUnbound (a b : LocalUserActionRequest) : Prop where
  comments : ∀ key, (a.keys.filter (·.publicKey = key)).Perm (b.keys.filter (·.publicKey = key))
  expectedFingerprints : a.expectedFingerprints.Perm b.expectedFingerprints
  gecos : a.gecos = b.gecos
  createHome : a.createHome = b.createHome
  removeHome : a.removeHome = b.removeHome
  allowLockout : a.allowLockout = b.allowLockout
  system : a.system = b.system
  ignoreMissing : a.ignoreMissing = b.ignoreMissing
  managedFile : a.managedFile = b.managedFile
  inactive : a.inactive = b.inactive

/-- The key edits are equal, list order aside. -/
inductive KeyEdit.Same : KeyEdit → KeyEdit → Prop
  | add {keys keys' : List SSHKeyInput} (h : keys.Perm keys') : KeyEdit.Same (.add keys) (.add keys')
  | remove {prints prints' : List Text} {ignoreMissing : Bool} (h : prints.Perm prints') :
      KeyEdit.Same (.remove prints ignoreMissing) (.remove prints' ignoreMissing)
  | replace {sshKeys sshKeys' expected expected' : List Text} {verify : Bool}
      (h : sshKeys.Perm sshKeys') (h' : expected.Perm expected') :
      KeyEdit.Same (.replace sshKeys expected verify) (.replace sshKeys' expected' verify)

/-- The helper does the same with the account, list order aside. -/
inductive AccountOrder.Same : AccountOrder → AccountOrder → Prop
  | create {name shell gecos : Text} {groups groups' sshKeys sshKeys' : List Text}
      {createHome system managedFile inactive : Bool} (h : groups.Perm groups')
      (h' : sshKeys.Perm sshKeys') :
      AccountOrder.Same (.create name shell gecos groups createHome system sshKeys managedFile inactive)
        (.create name shell gecos groups' createHome system sshKeys' managedFile inactive)
  | editKeys {name : Text} {system managedFile allowLockout : Bool} {edit edit' : KeyEdit}
      (h : edit.Same edit') :
      AccountOrder.Same (.editKeys name system managedFile allowLockout edit)
        (.editKeys name system managedFile allowLockout edit')
  | setGroups {name : Text} {system : Bool} {groups groups' : List Text} (h : groups.Perm groups') :
      AccountOrder.Same (.setGroups name system groups) (.setGroups name system groups')
  | refl (order : AccountOrder) : AccountOrder.Same order order

/-- What the panel signed with which key; a signature that verifies is one it made. -/
structure Panel (p : Primitives) where
  signed : Text → Message → Prop
  unforgeable : ∀ key bytes signature, p.verify key bytes signature = true →
    ∃ m, signed key m ∧ m.bytes = bytes

/-- A field of a request where a secret goes, with the secret the payload names for
it and the bytes the request has there. -/
structure Carried where
  place : Place
  named : Option SecretRef
  bytes : Text

/-- The fields of a request that carry secret material. -/
def carriedSecrets (request : HelperRequest) (payload : Payload) : List Carried :=
  match request.action with
  | .file r =>
    if r.fromSecret then
      [⟨.fileContent, payload.file.bind FilePayload.contentSecret, r.content⟩]
    else []
  | .localUser _ => []
  | .backup r =>
    ⟨.backupPassword, payload.backup.bind BackupPayload.passwordSecret, r.password⟩ ::
      r.env.entries.1.map fun e =>
        ⟨.environment e.1, payload.backup.bind fun b => b.envSecrets.get? e.1, e.2⟩
  | .certificate r => [⟨.privateKey, payload.certificate.bind CertificatePayload.keySecret, r.key⟩]
  | .repository r =>
    [⟨.repositoryPassword, payload.repository.bind RepositoryPayload.passwordSecret, r.password⟩]

/-- The bytes are exactly those of a receipt the panel signed for the host and the
task of the capability and for the secret named, at the pinned version if one is pinned. -/
def Released (p : Primitives) (panel : Panel p) (capability : HelperCapability) (c : Carried) : Prop :=
  ∃ reference : SecretRef, c.named = some reference ∧ reference.name ≠ text "" ∧
    ∃ (key : Text) (receipt : SecretReceipt), panel.signed key (.receipt receipt) ∧
      receipt.hostId = capability.hostId ∧ receipt.taskId = capability.taskId ∧
      receipt.secretName = reference.name ∧
      (reference.version ≠ 0 → receipt.secretVersion.toUInt64.toInt64 = reference.version) ∧
      ∀ bytes : Text, p.contentDigest bytes = receipt.sha256 ↔ bytes = c.bytes

/-- A certificate request that carries a private key, and a repository request that
carries a password, come under a payload that names a secret for it. -/
def NamesKeyAndPassword (request : HelperRequest) (payload : Payload) : Prop :=
  match request.action with
  | .certificate r =>
    r.key ≠ text "" →
      SecretRef.empty (payload.certificate.bind CertificatePayload.keySecret) = false
  | .repository r =>
    r.password ≠ text "" →
      SecretRef.empty (payload.repository.bind RepositoryPayload.passwordSecret) = false
  | _ => True

end Flotestro.HelperCap
