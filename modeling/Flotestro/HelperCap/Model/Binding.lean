import Flotestro.HelperCap.Model.Requests

/-!
# The binding of a request to the payload the panel signed

`checkBinding` compares what a request names with what the bound payload names;
`checkSpentSecrets` holds the bytes of every secret the payload names for the request to the
receipt the panel signed when it released them.  Both refuse with the first difference.
-/

set_option autoImplicit false

namespace Flotestro.HelperCap

open Library

/-- The stable codes of a refusal.  SOURCE: capability.go:54-104, keyring.go:60-63 -/
inductive Code where
  | payloadBinding
  | unknownKey
  | badSignature
  | capabilityExpired
  | wrongHost
  | trustInvalid
  | trustUntrusted
  | trustStale
  | trustPin
deriving DecidableEq

/-- The message of a refusal, with what the source renders into it. -/
inductive Detail where
  | wording (message : String)
  | about (message : String) (values : List Text)
  | names (what : String) (got want : Text)
  | others (what : String)
  | differsIn (fields : List String)
deriving DecidableEq

/-- SOURCE: capability.go:107-116 -/
structure Refusal where
  code : Code
  detail : Detail
deriving DecidableEq

abbrev Check := Except Refusal Unit

/-- SOURCE: expect.go:1547 -/
def binding (detail : Detail) : Check := .error ⟨.payloadBinding, detail⟩

/-- SOURCE: expect.go:1516-1521 -/
def same (what : String) (got want : Text) : Check :=
  if got ≠ want then binding (.names what got want) else .ok ()

/-- The lists name the same elements, whatever their order.
SOURCE: expect.go:1536-1545 -/
def sameList (what : String) (got want : List Text) : Check :=
  if sortTexts got ≠ sortTexts want then binding (.others what) else .ok ()

/-! ## Hashes and signatures -/

/-- The primitives the checks rest on.  `sum` is SHA-256 written in hex, taken as
injective; `verify` checks a signature of a text under a public key. -/
structure Primitives where
  sum : Text → Text
  sum_injective : Function.Injective sum
  verify : Text → Bytes → Text → Bool

variable (p : Primitives)

/-- SOURCE: expect.go:1073-1076 -/
def Primitives.contentDigest (content : Text) : Text := p.sum content

/-- The digest of a buffer; one longer than a slice can be is never built. -/
def Primitives.digest (buffer : Bytes) : Option Text :=
  if h : buffer.length < 2 ^ 63 then some (p.sum ⟨buffer, h⟩) else none

/-- Two digests are compared once both are there. -/
def sameDigest (what : String) : Option Text → Option Text → Check
  | some got, some want => same what got want
  | _, _ => binding (.others what)

/-- SOURCE: expect.go:1052-1070 -/
def sameContent (request : FileRequest) (payload : FilePayload) : Check := do
  if request.fromSecret ≠ !SecretRef.empty payload.contentSecret then
    binding (.wording "the request and the bound payload disagree about filling the file from a secret")
  if request.fromSecret then
    -- the bytes are held to the receipt of their release
    return
  same "file version" request.versionSha256 payload.versionSHA256
  if request.versionSha256 ≠ text "" then
    return
  same "file content" (p.contentDigest request.content) (p.contentDigest payload.content)

/-- SOURCE: expect.go:1014-1047 -/
def sameFile (request : FileRequest) (payload : FilePayload) : Check := do
  same "file path" request.path payload.path
  same "file mode" request.mode payload.mode
  same "file owner" request.owner payload.owner
  same "file group" request.group payload.group
  same "file validator" request.validator payload.validator
  same "expected digest" request.expectedSha256 payload.expectedSHA256
  if request.allowMissingValidator ≠ payload.allowMissingValidator then
    binding (.wording "the request and the bound payload disagree about a missing validator")
  sameContent p request payload

/-! ## Local accounts -/

/-- SOURCE: expect.go:1102-1116 -/
def publicKeys (keys : List SSHKeyInput) : List Text := keys.map SSHKeyInput.publicKey

/-- SOURCE: expect.go:1080-1100 -/
def sameAccount (request : LocalUserActionRequest) (payload : LocalUserPayload) : Check := do
  same "account name" request.name payload.name
  sameList "ssh keys" request.sshKeys payload.sshKeys
  sameList "keys" (publicKeys request.keys) (publicKeys payload.keys)
  sameList "fingerprints" request.fingerprints payload.fingerprints
  sameList "groups" request.groups payload.groups
  same "shell" request.shell payload.shell
  same "expiry" request.expiresAt payload.expiresAt

/-! ## Package repositories -/

/-- A removal carries no secret name even when the payload names one.
SOURCE: package_order.go:254-273 -/
def repositoryOrder (payload : RepositoryPayload) : RepositoryOrder where
  id := payload.id
  name := payload.name
  url := payload.url
  suites := payload.suites
  components := payload.components
  architectures := payload.architectures
  enabled := payload.enabled
  priority := payload.priority
  gpgKey := payload.gpgKey
  allowUnsigned := payload.allowUnsigned
  username := payload.username
  secretName :=
    match payload.passwordSecret with
    | some reference =>
      if !SecretRef.empty payload.passwordSecret && !payload.remove then reference.name else text ""
    | none => text ""
  remove := payload.remove

/-- SOURCE: package_order.go:276-286 -/
def repositoryRequestOrder (request : RepositoryRequest) : RepositoryOrder where
  id := request.id
  name := request.name
  url := request.url
  suites := request.suites
  components := request.components
  architectures := request.architectures
  enabled := request.enabled
  priority := request.priority.toInt64
  gpgKey := request.gpgKey
  allowUnsigned := request.allowUnsigned
  username := request.username
  secretName := request.secretName
  remove := request.remove

/-- SOURCE: expect.go:557-575 -/
def sameRepository (request : RepositoryRequest) (payload : RepositoryPayload) :
    Check := do
  same "repository" request.id payload.id
  same "repository address" request.url payload.url
  sameDigest "repository order" (p.digest (repositoryRequestOrder request).preimage)
    (p.digest (repositoryOrder payload).preimage)

/-- SOURCE: backup_order.go:204-229 -/
def orderOfPayload (payload : BackupPayload) : BackupOrder where
  id := payload.id
  tool := payload.tool
  repository := payload.repository
  paths := payload.paths
  excludes := payload.excludes
  tags := payload.tags
  keepLast := payload.keepLast
  keepDaily := payload.keepDaily
  keepWeekly := payload.keepWeekly
  keepMonthly := payload.keepMonthly
  prune := payload.prune
  runbook := payload.runbook
  initialise := payload.initialise
  readData := payload.readData
  snapshotID := payload.snapshotID
  target := payload.target
  includes := payload.includes
  overwrite := payload.overwrite
  plan := payload.plan
  planHash := payload.planHash
  hasPassword := !SecretRef.empty payload.passwordSecret
  envNames := payload.envSecrets.keys

/-- SOURCE: backup_order.go:237-261 -/
def orderOfRequest (request : BackupRequest) : BackupOrder where
  id := request.id
  tool := request.tool
  repository := request.repository
  paths := request.paths
  excludes := request.excludes
  tags := request.tags
  keepLast := request.keepLast.toInt64
  keepDaily := request.keepDaily.toInt64
  keepWeekly := request.keepWeekly.toInt64
  keepMonthly := request.keepMonthly.toInt64
  prune := request.prune
  runbook := request.runbook
  initialise := request.initialise
  readData := request.readData
  snapshotID := request.snapshotId
  target := request.target
  includes := request.includes
  overwrite := request.overwrite
  plan := request.plan
  planHash := request.planHash
  hasPassword := decide (request.password ≠ text "")
  envNames := request.env.keys

/-- The fields in which two orders disagree; lists are compared in order, the
environment names sorted.  SOURCE: backup_order.go:149-188 -/
def backupOrderDifference (got want : BackupOrder) : List String :=
  ([("id", decide (got.id = want.id)), ("tool", decide (got.tool = want.tool)),
    ("repository", decide (got.repository = want.repository)),
    ("paths", decide (got.paths = want.paths)), ("excludes", decide (got.excludes = want.excludes)),
    ("tags", decide (got.tags = want.tags)), ("keep_last", decide (got.keepLast = want.keepLast)),
    ("keep_daily", decide (got.keepDaily = want.keepDaily)),
    ("keep_weekly", decide (got.keepWeekly = want.keepWeekly)),
    ("keep_monthly", decide (got.keepMonthly = want.keepMonthly)),
    ("prune", decide (got.prune = want.prune)), ("runbook", decide (got.runbook = want.runbook)),
    ("initialize", decide (got.initialise = want.initialise)),
    ("read_data", decide (got.readData = want.readData)),
    ("snapshot_id", decide (got.snapshotID = want.snapshotID)),
    ("target", decide (got.target = want.target)), ("include", decide (got.includes = want.includes)),
    ("overwrite", decide (got.overwrite = want.overwrite)), ("plan", decide (got.plan = want.plan)),
    ("plan_hash", decide (got.planHash = want.planHash)),
    ("password", decide (got.hasPassword = want.hasPassword)),
    ("env", decide (got.sortedNames = want.sortedNames))].filter fun field => !field.2).map Prod.fst

/-- SOURCE: expect.go:577-597 -/
def sameBackup (request : BackupRequest) (payload : BackupPayload) : Check := do
  same "backup definition" request.id payload.id
  match p.digest (orderOfRequest request).preimage, p.digest (orderOfPayload payload).preimage with
  | some got, some want =>
    if got ≠ want then
      binding (.differsIn (backupOrderDifference (orderOfRequest request) (orderOfPayload payload)))
  | _, _ => binding (.others "backup order")

/-! ## Certificates -/

/-- SOURCE: expect.go:599-647.  Reads and plans are let through before the payload is
looked at; the material is compared where the order carries it. -/
def sameCertificate (request : CertificateRequest)
    (payload : Option CertificatePayload) : Check :=
  match request.operation with
  | .facts | .plan | .trustPlan => .ok ()
  | operation =>
    match payload with
    | none => binding (.wording "the bound payload describes no certificate")
    | some certificate => do
      same "certificate path" request.path certificate.path
      same "key path" request.keyPath certificate.keyPath
      same "owner" request.owner certificate.owner
      same "group" request.group certificate.group
      same "mode" request.mode certificate.mode
      same "key mode" request.keyMode certificate.keyMode
      same "unit to reload" request.reloadUnit certificate.reloadUnit
      same "renewal request" request.request certificate.request
      same "trust anchor" request.anchorId certificate.anchorID
      same "plan digest" request.planHash certificate.planHash
      if operation = .deploy ∨ operation = .trustEnsure then
        same "certificate material" (p.contentDigest request.certificate)
          (p.contentDigest certificate.certificate)

/-- SOURCE: expect.go:415-647, the modelled kinds of request. -/
def checkBinding (request : HelperRequest) (payload : Payload) : Check :=
  match request.action with
  | .file r =>
    match payload.file with
    | none => binding (.wording "the bound payload describes no file")
    | some f => sameFile p r f
  | .localUser r =>
    match payload.localUser with
    | none => binding (.wording "the bound payload describes no account")
    | some u => sameAccount r u
  | .repository r =>
    match payload.repository with
    | none => binding (.wording "the bound payload describes no repository")
    | some o => sameRepository p r o
  | .backup r =>
    match payload.backup with
    | none => binding (.wording "the bound payload describes no backup definition")
    | some b => sameBackup p r b
  | .certificate r => sameCertificate p r payload.certificate

end Flotestro.HelperCap
