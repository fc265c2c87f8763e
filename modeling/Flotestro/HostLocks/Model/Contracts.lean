import Mathlib.Data.List.Sort
import Flotestro.Library.Space

/-!
# The resources an operation claims

The registry of operations as far as their claims on the resources of a host go: which class an
operation locks, which classes its contract adds, and what a read shares.
-/

set_option autoImplicit false

namespace Flotestro.HostLocks

open Library

/-- A class of resources; a managed file is a class of its own.
SOURCE: opspec.go:298-321, contract.go:82-102, locks.go:212-214 -/
inductive ResourceClass where
  | packages | units | containers | identity | accounts | network | storage | backup
  | certificates | host | kernel | security | file | logsRead | inventoryHeavy
  | managedFile (path : Bytes)
deriving DecidableEq

/-- The class as the source writes it. -/
def ResourceClass.name : ResourceClass → Bytes
  | .packages => ascii "packages".toList
  | .units => ascii "units".toList
  | .containers => ascii "containers".toList
  | .identity => ascii "identity".toList
  | .accounts => ascii "accounts".toList
  | .network => ascii "network".toList
  | .storage => ascii "storage".toList
  | .backup => ascii "backup".toList
  | .certificates => ascii "certificates".toList
  | .host => ascii "host".toList
  | .kernel => ascii "kernel".toList
  | .security => ascii "security".toList
  | .file => ascii "file".toList
  | .logsRead => ascii "logs-read".toList
  | .inventoryHeavy => ascii "inventory-heavy".toList
  | .managedFile path => ascii "file:".toList ++ path

/-- SOURCE: contract.go:70-80 -/
inductive ClaimMode where
  | shared
  | exclusive
deriving DecidableEq

/-- SOURCE: contract.go:104-109 -/
structure ResourceClaim where
  cls : ResourceClass
  mode : ClaimMode
  weight : Nat
deriving DecidableEq

/-- SOURCE: contract.go:198-200 -/
def exclusive (cls : ResourceClass) : ResourceClaim := ⟨cls, .exclusive, 1⟩

/-- The weight the shared holders of a class may carry at once, zero without a bound.
SOURCE: contract.go:204-213 -/
def sharedCapacity : ResourceClass → Nat
  | .logsRead => 4
  | .inventoryHeavy => 2
  | _ => 0

def nameLe : Bytes → Bytes → Bool
  | [], _ => true
  | _ :: _, [] => false
  | a :: as, b :: bs => a < b || (a == b && nameLe as bs)

/-- Claims in the order of their classes' names. -/
def sortClaims (claims : List ResourceClaim) : List ResourceClaim :=
  claims.insertionSort fun a b => nameLe a.cls.name b.cls.name

/-- The operations of the registry.  SOURCE: opspec.go:45-273 -/
inductive ActionType where
  | unitStart | unitStop | unitRestart | unitReload | unitResetFailed | readJournal | readLogFile
  | followJournal | processList | processSignal | networkPlan | networkProfileApply
  | networkRouteEnsure | networkMTUSet | networkRollback | networkLinkApply | networkLinkRemove
  | dnsResolveTest | dnsPlan | dnsHostApply | firewallPlan | firewallRuleEnsure
  | firewallRuleRemove | firewallZonePort | firewallZoneService | firewallRulesetRestore
  | storagePlan | mountEnsure | mountRemove | filesystemCheck | lvmExtend | filesystemResize
  | filesystemCreate | diskWipe | storageSmartRead | raidMemberFail | raidMemberRemove
  | raidMemberAdd | lvmVolumeCreate | lvmVolumeRemove | lvmGroupExtend | lvmSnapshotCreate
  | lvmSnapshotRemove | sshConfigPlan | sshConfigApply | sshHostKeyRotate | securityScan
  | seLinuxModeSet | securityRemediate | auditRulesReload | certificateScan | certificatePlan
  | certificateTrustPlan | certificateTrustEnsure | certificateTrustRemove | certificateDeploy
  | certificateRenew | timeSyncTest | timePlan | timeConfigApply | timezoneSet | sysctlPlan
  | sysctlEnsure | kernelModuleLoad | kernelModulePlan | kernelModuleBlacklist | fileRead
  | filePlan | fileEnsure | fileRemove | fileRollback | scheduleEnsure | scheduleDisable
  | scheduleRemove | scheduleRunNow | schedulePreview | packageList | packagePlan | packageUpgrade
  | packageRepair | packageInstall | packageRemove | packageHoldSet | repositorySet | agentUpgrade
  | monitoringProbe | backupPlan | backupRun | backupVerify | backupRestore | systemReboot
  | systemShutdown | hostFinalWipe | systemHostnameSet | unitStatus | unitEnableSet | unitMaskSet
  | domainEnroll | domainPreflight | domainLeave | identityKeytabRenew | localUserCreate
  | localUserLock | localUserUnlock | localSSHKeysAdd | localSSHKeysRemove
  | localSSHKeysReplaceAll | localSSHKeysSet | localUserGroupsSet | localUserExpirySet
  | localUserDelete | inventoryRefresh | dockerRead | dockerStart | dockerStop | dockerRestart
  | dockerRemove | dockerPull | dockerPrune | dockerEvents | dockerLogs | dockerPlan
  | dockerContainerEnsure | dockerNetworkEnsure | dockerNetworkRemove | dockerVolumeEnsure
  | dockerVolumeRemove | composePlan | composeDeploy

/-- The operation changes the host.  SOURCE: opspec.go:667-670, 740-1218 -/
def ActionType.mutating : ActionType → Bool
  | .readJournal | .readLogFile | .followJournal | .processList | .networkPlan | .dnsResolveTest
  | .dnsPlan | .firewallPlan | .storagePlan | .storageSmartRead | .sshConfigPlan | .securityScan
  | .certificateScan | .certificatePlan | .certificateTrustPlan | .timeSyncTest | .timePlan
  | .sysctlPlan | .kernelModulePlan | .fileRead | .filePlan | .schedulePreview | .packageList
  | .packagePlan | .monitoringProbe | .backupPlan | .unitStatus | .domainPreflight
  | .inventoryRefresh | .dockerRead | .dockerEvents | .dockerLogs | .dockerPlan
  | .composePlan => false
  | _ => true

/-- The class an operation locks, if any.  SOURCE: opspec.go:430-432, 740-1218 -/
def ActionType.lockClass : ActionType → Option ResourceClass
  | .packagePlan | .packageUpgrade | .packageRepair | .packageInstall | .packageRemove
  | .packageHoldSet | .repositorySet | .agentUpgrade => some .packages
  | .unitStart | .unitStop | .unitRestart | .unitReload | .unitResetFailed | .sshConfigApply
  | .sshHostKeyRotate | .auditRulesReload | .certificateDeploy | .certificateRenew
  | .timeConfigApply | .scheduleEnsure | .scheduleDisable | .scheduleRemove | .scheduleRunNow
  | .systemShutdown | .unitEnableSet | .unitMaskSet => some .units
  | .dockerRead | .dockerStart | .dockerStop | .dockerRestart | .dockerRemove | .dockerPull
  | .dockerPrune | .dockerPlan | .dockerContainerEnsure | .dockerNetworkEnsure
  | .dockerNetworkRemove | .dockerVolumeEnsure | .dockerVolumeRemove | .composePlan
  | .composeDeploy => some .containers
  | .hostFinalWipe | .domainEnroll | .domainPreflight | .domainLeave
  | .identityKeytabRenew => some .identity
  | .localUserCreate | .localUserLock | .localUserUnlock | .localSSHKeysAdd | .localSSHKeysRemove
  | .localSSHKeysReplaceAll | .localSSHKeysSet | .localUserGroupsSet | .localUserExpirySet
  | .localUserDelete => some .accounts
  | .networkProfileApply | .networkRouteEnsure | .networkMTUSet | .networkRollback
  | .networkLinkApply | .networkLinkRemove | .dnsHostApply | .firewallRuleEnsure
  | .firewallRuleRemove | .firewallZonePort | .firewallZoneService
  | .firewallRulesetRestore => some .network
  | .mountEnsure | .mountRemove | .filesystemCheck | .lvmExtend | .filesystemResize
  | .filesystemCreate | .diskWipe | .raidMemberFail | .raidMemberRemove | .raidMemberAdd
  | .lvmVolumeCreate | .lvmVolumeRemove | .lvmGroupExtend | .lvmSnapshotCreate
  | .lvmSnapshotRemove => some .storage
  | .backupPlan | .backupRun | .backupVerify | .backupRestore => some .backup
  | .certificateTrustEnsure | .certificateTrustRemove => some .certificates
  | .systemHostnameSet => some .host
  | _ => none

/-! ## Contracts -/

/-- A row of the contract table, as far as it claims resources.
SOURCE: contract.go:148-157 -/
structure ContractRow where
  weight : Nat
  extra : List ResourceClaim

/-- The table of contracts.  SOURCE: contract.go:216-389 -/
def contracts : ActionType → Option ContractRow
  | .mountEnsure | .mountRemove | .raidMemberFail | .raidMemberRemove | .lvmVolumeCreate
  | .lvmSnapshotCreate | .lvmSnapshotRemove | .repositorySet | .backupVerify | .domainEnroll
  | .domainLeave | .dockerPrune | .dockerNetworkEnsure | .dockerNetworkRemove
  | .dockerVolumeEnsure | .dockerVolumeRemove => some ⟨2, []⟩
  | .filesystemCheck | .lvmExtend | .filesystemResize | .filesystemCreate | .diskWipe
  | .raidMemberAdd | .lvmVolumeRemove | .lvmGroupExtend | .dockerPull | .dockerContainerEnsure
  | .composeDeploy => some ⟨3, []⟩
  | .packageUpgrade | .packageRepair | .packageInstall | .packageRemove | .agentUpgrade
  | .backupRun | .backupRestore => some ⟨4, []⟩
  | .fileEnsure | .fileRemove | .fileRollback => some ⟨0, [exclusive .file]⟩
  | .systemReboot | .systemShutdown | .hostFinalWipe => some ⟨0, [exclusive .host]⟩
  | .sysctlEnsure | .kernelModuleLoad | .kernelModuleBlacklist =>
    some ⟨0, [exclusive .kernel, exclusive .network]⟩
  | .seLinuxModeSet | .auditRulesReload => some ⟨0, [exclusive .security]⟩
  | .timezoneSet => some ⟨0, [exclusive .units]⟩
  | .readJournal | .readLogFile | .followJournal | .processList | .networkPlan | .dnsResolveTest
  | .dnsPlan | .firewallPlan | .storagePlan | .storageSmartRead | .sshConfigPlan | .securityScan
  | .certificateScan | .certificatePlan | .certificateTrustPlan | .timeSyncTest | .timePlan
  | .sysctlPlan | .kernelModulePlan | .fileRead | .filePlan | .schedulePreview | .packageList
  | .packagePlan | .monitoringProbe | .backupPlan | .unitStatus | .domainPreflight
  | .inventoryRefresh | .dockerRead | .dockerEvents | .dockerLogs | .dockerPlan
  | .composePlan => none
  | _ => some ⟨0, []⟩

/-- The lock class exclusively, and what the row adds.  SOURCE: contract.go:159-177 -/
def ContractRow.withClaims (row : ContractRow) (action : ActionType) : List ResourceClaim :=
  let lock := match action.lockClass with
    | none => []
    | some cls => [⟨cls, .exclusive, if row.weight = 0 then 1 else row.weight⟩]
  sortClaims (lock ++ row.extra)

/-- The claims of a read: its lock class shared, and a shared class for what costs the
host something.  SOURCE: contract.go:182-196 -/
def readClaims (action : ActionType) : List ResourceClaim :=
  let lock := match action.lockClass with
    | none => []
    | some cls => [⟨cls, .shared, 1⟩]
  let cost := match action with
    | .readJournal | .followJournal | .readLogFile | .dockerEvents => [⟨.logsRead, .shared, 1⟩]
    | .processList | .dockerRead | .inventoryRefresh | .securityScan | .certificateScan
    | .storagePlan | .packageList | .dockerPlan => [⟨.inventoryHeavy, .shared, 1⟩]
    | _ => []
  sortClaims (lock ++ cost)

/-- The claims of an operation's contract.  SOURCE: contract.go:125-145 -/
def ActionType.resourceClaims (action : ActionType) : List ResourceClaim :=
  match contracts action with
  | some row => row.withClaims action
  | none => if action.mutating then [] else readClaims action

/-- What a mutation takes whose contract claims nothing.  SOURCE: locks.go:225-257 -/
def fallbackClaims (action : ActionType) : List ResourceClaim :=
  let lock := action.lockClass.toList
  let more : List ResourceClass := match action with
    | .systemReboot | .systemShutdown => [.host]
    | .sysctlEnsure | .kernelModuleLoad | .kernelModuleBlacklist => [.kernel, .network]
    | .seLinuxModeSet | .auditRulesReload => [.security]
    | _ => []
  (lock ++ more).dedup.map exclusive

/-- The file an operation concerns; `path` is the path of a file payload, if there is
one.  SOURCE: locks.go:270-278 -/
def filePath (action : ActionType) (path : Option Bytes) : Bytes :=
  match action with
  | .fileEnsure | .fileRemove | .fileRollback => trimSpace (path.getD [])
  | _ => []

/-- A claim on managed files becomes a claim on the one file. -/
def ResourceClaim.onFile (path : Bytes) (claim : ResourceClaim) : ResourceClaim :=
  if claim.cls = .file ∧ path ≠ [] then { claim with cls := .managedFile path } else claim

/-- The claims of a task, from the operation and the file path that were decoded from
it, or none when it could not be decoded.  SOURCE: locks.go:195-221 -/
def taskClaims : Option (ActionType × Option Bytes) → List ResourceClaim
  | none => []
  | some (action, path) =>
    let declared := action.resourceClaims
    let claims := if declared = [] ∧ action.mutating then fallbackClaims action else declared
    sortClaims (claims.map (ResourceClaim.onFile (filePath action path)))

example : taskClaims (some (.fileEnsure, some (ascii "/etc/motd".toList))) =
    [exclusive (.managedFile (ascii "/etc/motd".toList))] := by decide

example : (taskClaims (some (.systemShutdown, none))).map (·.cls) = [.host, .units] := by decide

end Flotestro.HostLocks
