import Flotestro.Library.Delimited

/-!
# What the panel key signs, and the orders a capability binds

The bytes a signature covers are built by appending fields to a buffer: a word, or a byte
string behind its length.  Five kinds of message are signed with the panel key; three kinds
of order are hashed from a text built the same way.  Each message starts with a text of its
own kind.
-/

set_option autoImplicit false

namespace Flotestro.HelperCap

open Library

/-! ## Appending fields -/

/-- Append a word.  SOURCE: capability.go:232-236 -/
def appendUint (out : Bytes) (value : UInt64) : Bytes := out ++ word value

/-- Append a byte string behind its length.  SOURCE: capability.go:238-241 -/
def appendBytes (out : Bytes) (value : Text) : Bytes := appendUint out (count value) ++ value.1

/-- Append a named list, its count and every element with its own length.
SOURCE: package_order.go:78-84 -/
def appendList (out : Bytes) (name : Text) (values : Slice Text) : Bytes :=
  values.1.foldl appendBytes (appendUint (appendBytes out name) (count values))

/-- Append a named list of tuples.  SOURCE: package_order.go:88-97 -/
def appendTuples (out : Bytes) (name : Text) (tuples : Slice (Slice Text)) : Bytes :=
  tuples.1.foldl
    (fun out tuple => tuple.1.foldl appendBytes (appendUint out (count tuple)))
    (appendUint (appendBytes out name) (count tuples))

/-- Append a named flag.  SOURCE: package_order.go:99-105 -/
def appendFlag (out : Bytes) (name : Text) (value : Bool) : Bytes :=
  appendUint (appendBytes out name) (if value then 1 else 0)

/-- A capability; the signature travels beside it.  SOURCE: helper.pb.go:2198-2225 -/
@[ext] structure HelperCapability where
  schemaVersion : UInt32
  keyId : Text
  capabilityId : Text
  hostId : Text
  taskId : Text
  actionType : Text
  payloadSha256 : Text
  notBeforeUnix : Int64
  expiresUnix : Int64
  nonce : Text
  policyRevision : UInt64
  grants : Slice Text

def signingPrefix : Bytes := (text "flotestro-helper-capability/1\n").1

/-- The bytes of a capability that are signed.  SOURCE: capability.go:211-230 -/
def signingBytes (capability : HelperCapability) : Bytes :=
  let out := signingPrefix
  let out := appendUint out capability.schemaVersion.toUInt64
  let out := appendBytes out capability.keyId
  let out := appendBytes out capability.capabilityId
  let out := appendBytes out capability.hostId
  let out := appendBytes out capability.taskId
  let out := appendBytes out capability.actionType
  let out := appendBytes out capability.payloadSha256
  let out := appendUint out capability.notBeforeUnix.toUInt64
  let out := appendUint out capability.expiresUnix.toUInt64
  let out := appendBytes out capability.nonce
  let out := appendUint out capability.policyRevision
  let out := appendUint out (count capability.grants)
  capability.grants.1.foldl appendBytes out

/-- The receipt of a released secret.  SOURCE: helper.pb.go:7776-7793 -/
structure SecretReceipt where
  hostId : Text
  taskId : Text
  secretName : Text
  secretVersion : UInt32
  sha256 : Text
  issuedUnix : Int64
  signedByKeyId : Text
  signature : Text

def receiptPrefix : Bytes := (text "flotestro-secret-receipt/1\n").1

/-- The bytes of a receipt that are signed.  SOURCE: receipt.go:36-47 -/
def receiptSigningBytes (receipt : SecretReceipt) : Bytes :=
  let out := receiptPrefix
  let out := appendBytes out receipt.hostId
  let out := appendBytes out receipt.taskId
  let out := appendBytes out receipt.secretName
  let out := appendUint out receipt.secretVersion.toUInt64
  let out := appendBytes out receipt.sha256
  let out := appendUint out receipt.issuedUnix.toUInt64
  appendBytes out receipt.signedByKeyId

/-! ## Trust bundles -/

/-- A key of a bundle.  SOURCE: helper.pb.go:2342-2350 -/
@[ext] structure HelperTrustKey where
  keyId : Text
  publicKey : Text
deriving DecidableEq

/-- The keyring the panel sends a host.  SOURCE: helper.pb.go:2400-2411 -/
structure HelperTrustBundle where
  hostId : Text
  keys : Slice HelperTrustKey
  issuedUnix : Int64
  signedByKeyId : Text
  signature : Text

def trustPrefix : Bytes := (text "flotestro-helper-trust/1\n").1

/-- The bytes of a bundle that are signed.  SOURCE: signer.go:238-250 -/
def trustBundleSigningBytes (bundle : HelperTrustBundle) : Bytes :=
  let out := trustPrefix
  let out := appendBytes out bundle.hostId
  let out := appendUint out bundle.issuedUnix.toUInt64
  let out := appendBytes out bundle.signedByKeyId
  let out := appendUint out (count bundle.keys)
  bundle.keys.1.foldl (fun out key => appendBytes (appendBytes out key.keyId) key.publicKey) out

/-! ## Acknowledgements of results -/

/-- The acknowledgement of a task result; the status is an enumeration the wire
carries as a signed 32-bit number.  SOURCE: agent.pb.go:3360-3395 -/
structure TaskResultAck where
  taskId : Text
  idempotencyKey : Text
  status : Int32
  reasonCode : Text
  signature : Text
  keyId : Text
  resultDigest : Text
  digestSignature : Text

def resultAckPrefix : Bytes := (text "flotestro/result-ack/v1\x00").1

/-- The bytes of an acknowledgement for one host that are signed.
SOURCE: result_ack.go:21-29 -/
def resultAckSigningBytes (hostID : Text) (ack : TaskResultAck) : Bytes :=
  let out := resultAckPrefix
  let out := appendBytes out hostID
  let out := appendBytes out ack.taskId
  let out := appendBytes out ack.idempotencyKey
  let out := appendUint out ack.status.toInt64.toUInt64
  appendBytes out ack.reasonCode

def resultAckDigestPrefix : Bytes := (text "flotestro/result-ack-digest/v1\x00").1

/-- The bytes the signature of the digest covers: the acknowledgement whole, and
the digest behind it.  SOURCE: result_ack.go:41-44 -/
def resultAckDigestSigningBytes (hostID : Text) (ack : TaskResultAck) : Bytes :=
  appendBytes (resultAckDigestPrefix ++ resultAckSigningBytes hostID ack) ack.resultDigest

/-- The messages signed with the panel key. -/
inductive Message where
  | capability (capability : HelperCapability)
  | receipt (receipt : SecretReceipt)
  | trustBundle (bundle : HelperTrustBundle)
  | resultAck (hostID : Text) (ack : TaskResultAck)
  | resultDigest (hostID : Text) (ack : TaskResultAck)

def Message.bytes : Message → Bytes
  | .capability c => signingBytes c
  | .receipt r => receiptSigningBytes r
  | .trustBundle b => trustBundleSigningBytes b
  | .resultAck hostID ack => resultAckSigningBytes hostID ack
  | .resultDigest hostID ack => resultAckDigestSigningBytes hostID ack

/-- A package order.  SOURCE: package_order.go:29-50 -/
@[ext] structure PackageOrder where
  operation : Text
  packages : Slice Text
  expectedRemovals : Slice Text
  hold : Bool
  securityOnly : Bool
  allowDowngrade : Bool
  planHash : Text
  planSchemaVersion : UInt32
  plannerVersion : Text
  inventoryRevision : Text
  resourceRevision : Text
  planExpiresUnix : Int64
  changes : Slice (Slice Text)

def packageOrderPrefix : Bytes := (text "flotestro-package-order/2\n").1

/-- The text a package order is hashed from.  SOURCE: package_order.go:65-80 -/
def PackageOrder.preimage (o : PackageOrder) : Bytes :=
  let out := packageOrderPrefix
  let out := appendBytes (appendBytes out (text "operation")) o.operation
  let out := appendList out (text "packages") o.packages
  let out := appendList out (text "expected_removals") o.expectedRemovals
  let out := appendFlag out (text "hold") o.hold
  let out := appendFlag out (text "security_only") o.securityOnly
  let out := appendFlag out (text "allow_downgrade") o.allowDowngrade
  let out := appendBytes (appendBytes out (text "plan_hash")) o.planHash
  let out := appendUint (appendBytes out (text "plan_schema_version")) o.planSchemaVersion.toUInt64
  let out := appendBytes (appendBytes out (text "planner_version")) o.plannerVersion
  let out := appendBytes (appendBytes out (text "inventory_revision")) o.inventoryRevision
  let out := appendBytes (appendBytes out (text "resource_revision")) o.resourceRevision
  let out := appendUint (appendBytes out (text "plan_expires_unix")) o.planExpiresUnix.toUInt64
  appendTuples out (text "changes") o.changes

/-- A package source as it is ordered; the password is in it by the name of the
secret.  SOURCE: package_order.go:215-229 -/
@[ext] structure RepositoryOrder where
  id : Text
  name : Text
  url : Text
  suites : Slice Text
  components : Slice Text
  architectures : Slice Text
  enabled : Bool
  priority : Int64
  gpgKey : Text
  allowUnsigned : Bool
  username : Text
  secretName : Text
  remove : Bool

def repositoryOrderPrefix : Bytes := (text "flotestro-repository-order/2\n").1

/-- The text a repository order is hashed from.  SOURCE: package_order.go:234-251 -/
def RepositoryOrder.preimage (o : RepositoryOrder) : Bytes :=
  let out := repositoryOrderPrefix
  let out := appendBytes (appendBytes out (text "id")) o.id
  let out := appendBytes (appendBytes out (text "name")) o.name
  let out := appendBytes (appendBytes out (text "url")) o.url
  let out := appendList out (text "suites") o.suites
  let out := appendList out (text "components") o.components
  let out := appendList out (text "architectures") o.architectures
  let out := appendFlag out (text "enabled") o.enabled
  let out := appendUint (appendBytes out (text "priority")) o.priority.toUInt64
  let out := appendBytes (appendBytes out (text "gpg_key")) o.gpgKey
  let out := appendFlag out (text "allow_unsigned") o.allowUnsigned
  let out := appendBytes (appendBytes out (text "username")) o.username
  let out := appendBytes (appendBytes out (text "secret_name")) o.secretName
  appendFlag out (text "remove") o.remove

/-- A backup order; the environment is in it by name.  SOURCE: backup_order.go:39-66 -/
structure BackupOrder where
  id : Text
  tool : Text
  repository : Text
  paths : Slice Text
  excludes : Slice Text
  tags : Slice Text
  keepLast : Int64
  keepDaily : Int64
  keepWeekly : Int64
  keepMonthly : Int64
  prune : Bool
  runbook : Text
  initialise : Bool
  readData : Bool
  snapshotID : Text
  target : Text
  includes : Slice Text
  overwrite : Text
  plan : Text
  planHash : Text
  hasPassword : Bool
  envNames : Slice Text

def backupOrderPrefix : Bytes := (text "flotestro-backup-order/2\n").1

/-- The environment names of an order, sorted.  SOURCE: backup_order.go:71-72 -/
def BackupOrder.sortedNames (o : BackupOrder) : Slice Text :=
  ⟨sortTexts o.envNames.1, by rw [length_sortTexts]; exact o.envNames.2⟩

/-- The text a backup order is hashed from; the environment names are sorted
first.  SOURCE: backup_order.go:70-139 -/
def BackupOrder.preimage (o : BackupOrder) : Bytes :=
  let out := backupOrderPrefix
  let out := appendBytes (appendBytes out (text "id")) o.id
  let out := appendBytes (appendBytes out (text "tool")) o.tool
  let out := appendBytes (appendBytes out (text "repository")) o.repository
  let out := appendList out (text "paths") o.paths
  let out := appendList out (text "excludes") o.excludes
  let out := appendList out (text "tags") o.tags
  let out := appendUint (appendBytes out (text "keep_last")) o.keepLast.toUInt64
  let out := appendUint (appendBytes out (text "keep_daily")) o.keepDaily.toUInt64
  let out := appendUint (appendBytes out (text "keep_weekly")) o.keepWeekly.toUInt64
  let out := appendUint (appendBytes out (text "keep_monthly")) o.keepMonthly.toUInt64
  let out := appendFlag out (text "prune") o.prune
  let out := appendBytes (appendBytes out (text "runbook")) o.runbook
  let out := appendFlag out (text "initialize") o.initialise
  let out := appendFlag out (text "read_data") o.readData
  let out := appendBytes (appendBytes out (text "snapshot_id")) o.snapshotID
  let out := appendBytes (appendBytes out (text "target")) o.target
  let out := appendList out (text "include") o.includes
  let out := appendBytes (appendBytes out (text "overwrite")) o.overwrite
  let out := appendBytes (appendBytes out (text "plan")) o.plan
  let out := appendBytes (appendBytes out (text "plan_hash")) o.planHash
  let out := appendFlag out (text "password") o.hasPassword
  appendList out (text "env") o.sortedNames

inductive Order where
  | package (order : PackageOrder)
  | repository (order : RepositoryOrder)
  | backup (order : BackupOrder)

/-- The text an order is hashed from. -/
def Order.preimage : Order → Bytes
  | .package o => o.preimage
  | .repository o => o.preimage
  | .backup o => o.preimage

end Flotestro.HelperCap
