import Flotestro.HelperCap.Model.Signing

/-!
# Requests to the helper and the payloads the panel signed

The requests whose binding is modelled: a file, a local account, a package repository, a
backup and a certificate, each beside the payload it is compared with.  A pointer of the
source is an `Option`; a field no modelled function reads is left out.
-/

set_option autoImplicit false

namespace Flotestro.HelperCap

open Library

/-- A reference to a secret of the store; version zero is the version current when
the task is delivered.  SOURCE: opspec.go:2317-2322 -/
structure SecretRef where
  name : Text
  version : Int64

/-- Whether a reference points at nothing.  SOURCE: opspec.go:2343 -/
def SecretRef.empty : Option SecretRef → Bool
  | none => true
  | some r => r.name == text ""

/-- SOURCE: helper.pb.go:7626-7655 -/
structure FileRequest where
  path : Text
  content : Text
  mode : Text
  owner : Text
  group : Text
  expectedSha256 : Text
  validator : Text
  fromSecret : Bool
  allowMissingValidator : Bool
  versionSha256 : Text

/-- SOURCE: opspec.go:2357-2376 -/
structure FilePayload where
  path : Text
  content : Text
  mode : Text
  owner : Text
  group : Text
  expectedSHA256 : Text
  validator : Text
  versionSHA256 : Text
  contentSecret : Option SecretRef
  allowMissingValidator : Bool

/-- The operations on a local account.  SOURCE: helper.pb.go:28-46 -/
inductive LocalUserOperation where
  | unspecified
  | create
  | lock
  | unlock
  | setSshKeys
  | setGroups
  | setExpiry
  | delete
  | addSshKeys
  | removeSshKeys
  | replaceSshKeys

/-- A key an add appends.  SOURCE: helper.pb.go:2826-2832, opspec.go:2901-2904 -/
structure SSHKeyInput where
  publicKey : Text
  comment : Text
deriving DecidableEq

/-- SOURCE: helper.pb.go:2634-2674 -/
structure LocalUserActionRequest where
  operation : LocalUserOperation
  name : Text
  gecos : Text
  shell : Text
  groups : List Text
  sshKeys : List Text
  createHome : Bool
  expiresAt : Text
  removeHome : Bool
  keys : List SSHKeyInput
  fingerprints : List Text
  ignoreMissing : Bool
  expectedFingerprints : List Text
  allowLockout : Bool
  managedFile : Bool
  system : Bool
  inactive : Bool

/-- The payload of an account order; of its fields those the binding reads.
SOURCE: opspec.go:2863-2897 -/
structure LocalUserPayload where
  name : Text
  shell : Text
  groups : List Text
  sshKeys : List Text
  expiresAt : Text
  keys : List SSHKeyInput
  fingerprints : List Text

/-- SOURCE: helper.pb.go:6693-6716 -/
structure RepositoryRequest where
  id : Text
  name : Text
  url : Text
  suites : Slice Text
  components : Slice Text
  architectures : Slice Text
  enabled : Bool
  priority : Int32
  gpgKey : Text
  allowUnsigned : Bool
  username : Text
  password : Text
  secretName : Text
  remove : Bool

/-- SOURCE: opspec.go:2215-2235 -/
structure RepositoryPayload where
  id : Text
  name : Text
  url : Text
  suites : Slice Text
  components : Slice Text
  architectures : Slice Text
  enabled : Bool
  priority : Int64
  gpgKey : Text
  allowUnsigned : Bool
  username : Text
  passwordSecret : Option SecretRef
  remove : Bool

/-- SOURCE: helper.pb.go:6357-6392 -/
structure BackupRequest where
  id : Text
  tool : Text
  repository : Text
  paths : Slice Text
  excludes : Slice Text
  tags : Slice Text
  keepLast : Int32
  keepDaily : Int32
  keepWeekly : Int32
  keepMonthly : Int32
  prune : Bool
  runbook : Text
  initialise : Bool
  password : Text
  env : Dict Text
  readData : Bool
  snapshotId : Text
  target : Text
  includes : Slice Text
  overwrite : Text
  plan : Text
  planHash : Text

/-- SOURCE: opspec.go:2173-2212 -/
structure BackupPayload where
  id : Text
  tool : Text
  repository : Text
  paths : Slice Text
  excludes : Slice Text
  tags : Slice Text
  keepLast : Int64
  keepDaily : Int64
  keepWeekly : Int64
  keepMonthly : Int64
  prune : Bool
  runbook : Text
  initialise : Bool
  passwordSecret : Option SecretRef
  envSecrets : Dict SecretRef
  readData : Bool
  plan : Text
  planHash : Text
  snapshotID : Text
  target : Text
  includes : Slice Text
  overwrite : Text

/-- SOURCE: helper.pb.go:1083-1098 -/
inductive CertificateOperation where
  | unspecified
  | facts
  | deploy
  | renew
  | plan
  | trustPlan
  | trustEnsure
  | trustRemove
deriving DecidableEq

/-- SOURCE: helper.pb.go:6982-7020 -/
structure CertificateRequest where
  operation : CertificateOperation
  path : Text
  keyPath : Text
  certificate : Text
  key : Text
  owner : Text
  group : Text
  mode : Text
  keyMode : Text
  reloadUnit : Text
  request : Text
  planHash : Text
  anchorId : Text

/-- SOURCE: opspec.go:2246-2274 -/
structure CertificatePayload where
  path : Text
  keyPath : Text
  certificate : Text
  keySecret : Option SecretRef
  owner : Text
  group : Text
  mode : Text
  keyMode : Text
  reloadUnit : Text
  request : Text
  anchorID : Text
  planHash : Text

/-- The actions whose binding is modelled. -/
inductive Action where
  | file (request : FileRequest)
  | localUser (request : LocalUserActionRequest)
  | repository (request : RepositoryRequest)
  | backup (request : BackupRequest)
  | certificate (request : CertificateRequest)

/-- SOURCE: helper.pb.go:1431-1506 -/
structure HelperRequest where
  action : Action
  secretReceipts : List SecretReceipt

/-- The payload the panel signed: at most one of the members is given.
SOURCE: payload.go:49-53 -/
structure Payload where
  file : Option FilePayload
  localUser : Option LocalUserPayload
  repository : Option RepositoryPayload
  backup : Option BackupPayload
  certificate : Option CertificatePayload

/-! ## What the helper reads from an account request

Each operation on a local account reads its own fields of the request; the rest does not reach the host. -/

/-- The key edits, with the material each of them takes.
SOURCE: localusers_keys.go:130-175 -/
inductive KeyEdit where
  | add (keys : List SSHKeyInput)
  | remove (fingerprints : List Text) (ignoreMissing : Bool)
  | replace (sshKeys expected : List Text) (verify : Bool)

/-- What an operation does with an account.  SOURCE: localusers_write.go:145-165 -/
inductive AccountOrder where
  | create (name shell gecos : Text) (groups : List Text) (createHome system : Bool)
      (sshKeys : List Text) (managedFile inactive : Bool)
  | setLock (name : Text) (system lock : Bool)
  | editKeys (name : Text) (system managedFile allowLockout : Bool) (edit : KeyEdit)
  | setGroups (name : Text) (system : Bool) (groups : List Text)
  | setExpiry (name : Text) (system : Bool) (expiresAt : Text)
  | delete (name : Text) (system removeHome : Bool)
  | unknown

/-- The dispatch of an account request.  A set of keys is held to the fingerprints the
operator saw only when it names some; a replace always is.
SOURCE: localusers_write.go:117-166, localusers_keys.go:96-186 -/
def applyLocalUserAction (action : LocalUserActionRequest) : AccountOrder :=
  let edit := AccountOrder.editKeys action.name action.system action.managedFile action.allowLockout
  match action.operation with
  | .create => .create action.name action.shell action.gecos action.groups action.createHome
      action.system action.sshKeys action.managedFile action.inactive
  | .lock => .setLock action.name action.system true
  | .unlock => .setLock action.name action.system false
  | .addSshKeys => edit (.add action.keys)
  | .removeSshKeys => edit (.remove action.fingerprints action.ignoreMissing)
  | .replaceSshKeys => edit (.replace action.sshKeys action.expectedFingerprints true)
  | .setSshKeys =>
    edit (.replace action.sshKeys action.expectedFingerprints !action.expectedFingerprints.isEmpty)
  | .setGroups => .setGroups action.name action.system action.groups
  | .setExpiry => .setExpiry action.name action.system action.expiresAt
  | .delete => .delete action.name action.system action.removeHome
  | .unspecified => .unknown

end Flotestro.HelperCap
