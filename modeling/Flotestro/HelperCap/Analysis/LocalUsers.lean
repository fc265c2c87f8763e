import Flotestro.HelperCap.Analysis.Binding

/-!
# The binding of an account order

The binding compares the account, the keys without their comments, the fingerprints to remove,
the groups, the shell and the expiry.  Two accepted requests therefore agree in those, and
order the same change exactly when they agree in the rest as well; the rest is chosen by
whoever makes the request.
-/

set_option autoImplicit false

namespace Flotestro.HelperCap

open Library

theorem SameOrder.applied {a b : LocalUserActionRequest} (h : SameOrder a b)
    (hop : a.operation = b.operation) : (applyLocalUserAction a).Same (applyLocalUserAction b) := by
  have hempty : a.expectedFingerprints.isEmpty = b.expectedFingerprints.isEmpty := by
    rw [Bool.eq_iff_iff, List.isEmpty_iff_length_eq_zero, List.isEmpty_iff_length_eq_zero,
      h.expectedFingerprints.length_eq]
  unfold applyLocalUserAction
  rw [← hop, ← h.name, ← h.system, ← h.managedFile, ← h.allowLockout, ← h.shell, ← h.gecos,
    ← h.createHome, ← h.inactive, ← h.ignoreMissing, ← h.expiresAt, ← h.removeHome, ← hempty]
  cases a.operation with
  | create => exact .create h.groups h.sshKeys
  | addSshKeys => exact .editKeys (.add h.keys)
  | removeSshKeys => exact .editKeys (.remove h.fingerprints)
  | replaceSshKeys | setSshKeys => exact .editKeys (.replace h.sshKeys h.expectedFingerprints)
  | setGroups => exact .setGroups h.groups
  | lock | unlock | setExpiry | delete | unspecified => exact .refl _

/-- Lists whose parts under every public key agree hold the same keys. -/
theorem perm_of_filter_publicKey {l l' : List SSHKeyInput}
    (h : ∀ key, (l.filter (·.publicKey = key)).Perm (l'.filter (·.publicKey = key))) :
    l.Perm l' := by
  rw [List.perm_iff_count]
  intro k
  have hcount : ∀ m : List SSHKeyInput, m.count k = (m.filter (·.publicKey = k.publicKey)).count k := by
    intro m
    rw [List.count_filter (by simp)]
  rw [hcount l, hcount l', (h k.publicKey).count_eq]

theorem sameAccount_of_ok {request : HelperRequest} {payload : Payload} {p : Primitives}
    {r : LocalUserActionRequest} (haction : request.action = .localUser r)
    (h : checkBinding p request payload = .ok ()) :
    ∃ u, payload.localUser = some u ∧ sameAccount r u = .ok () := by
  simp only [checkBinding, haction] at h
  cases hu : payload.localUser with
  | none => simp [hu, binding] at h
  | some u =>
    simp only [hu] at h
    exact ⟨u, rfl, h⟩

/-- Two account requests of one operation that the binding accepts under one payload agree,
list order aside, in everything the helper reads from them exactly when they agree in the
fields the binding does not compare. -/
theorem account_order_bound_iff (p : Primitives) (payload : Payload)
    (request request' : HelperRequest) (r r' : LocalUserActionRequest)
    (haction : request.action = .localUser r) (haction' : request'.action = .localUser r')
    (hop : r.operation = r'.operation) (hok : checkBinding p request payload = .ok ())
    (hok' : checkBinding p request' payload = .ok ()) :
    (SameOrder r r' ∧ (applyLocalUserAction r).Same (applyLocalUserAction r')) ↔ SameUnbound r r' := by
  obtain ⟨u, hu, hsame⟩ := sameAccount_of_ok haction hok
  obtain ⟨u', hu', hsame'⟩ := sameAccount_of_ok haction' hok'
  obtain rfl : u = u' := Option.mem_unique hu hu'
  obtain ⟨hname, hssh, _, hprints, hgroups, hshell, hexpiry⟩ := sameAccount_ok_iff.mp hsame
  obtain ⟨hname', hssh', _, hprints', hgroups', hshell', hexpiry'⟩ := sameAccount_ok_iff.mp hsame'
  constructor
  · rintro ⟨h, -⟩
    exact { h with comments := fun _ => h.keys.filter _ }
  · intro h
    have horder : SameOrder r r' :=
      { h with
        name := hname.trans hname'.symm
        sshKeys := hssh.trans hssh'.symm
        keys := perm_of_filter_publicKey h.comments
        fingerprints := hprints.trans hprints'.symm
        groups := hgroups.trans hgroups'.symm
        shell := hshell.trans hshell'.symm
        expiresAt := hexpiry.trans hexpiry'.symm }
    exact ⟨horder, horder.applied hop⟩

/-- The deletion of an account, and a payload that describes it. -/
def deletion (removeHome system : Bool) : LocalUserActionRequest where
  operation := .delete
  name := text "alice"
  gecos := text ""
  shell := text ""
  groups := []
  sshKeys := []
  createHome := false
  expiresAt := text ""
  removeHome := removeHome
  keys := []
  fingerprints := []
  ignoreMissing := false
  expectedFingerprints := []
  allowLockout := false
  managedFile := false
  system := system
  inactive := false

def deletionPayload : Payload where
  file := none
  localUser := some
    { name := text "alice", shell := text "", groups := [], sshKeys := [], expiresAt := text "",
      keys := [], fingerprints := [] }
  repository := none
  backup := none
  certificate := none

def deletionRequest (removeHome system : Bool) : HelperRequest :=
  ⟨.localUser (deletion removeHome system), []⟩

/-- One order to add two keys, written in either order. -/
theorem account_order_bound_keys :
    let key : SSHKeyInput := ⟨text "a", text "home"⟩
    let key' : SSHKeyInput := ⟨text "b", text "work"⟩
    let r := { deletion true false with operation := .addSshKeys, keys := [key, key'] }
    let r' := { r with keys := [key', key] }
    SameOrder r r' ∧ (applyLocalUserAction r).Same (applyLocalUserAction r') := by
  intro key key' r r'
  let payload : Payload := { deletionPayload with
    localUser := deletionPayload.localUser.map fun u => { u with keys := r.keys } }
  refine (account_order_bound_iff (plainPrimitives (.receipt emptyReceipt)) payload ⟨.localUser r, []⟩
    ⟨.localUser r', []⟩ r r' rfl rfl rfl rfl rfl).mpr ?_
  exact ⟨fun _ => (List.Perm.swap key' key []).filter _, .refl _, rfl, rfl, rfl, rfl, rfl, rfl, rfl, rfl⟩

/-- One signed order to delete an account is accepted as a deletion that keeps the home
directory, and as one of a system account that removes it. -/
theorem account_order_chosen_by_request :
    checkBinding (plainPrimitives (.receipt emptyReceipt)) (deletionRequest false false)
        deletionPayload = .ok () ∧
      checkBinding (plainPrimitives (.receipt emptyReceipt)) (deletionRequest true true)
        deletionPayload = .ok () ∧
      (deletion false false).operation = (deletion true true).operation ∧
      ¬ SameOrder (deletion false false) (deletion true true) ∧
      ¬ (applyLocalUserAction (deletion false false)).Same
        (applyLocalUserAction (deletion true true)) := by
  refine ⟨rfl, rfl, rfl, ?_, ?_⟩
  · intro h
    exact absurd h.removeHome (by decide)
  · intro h
    generalize ho : applyLocalUserAction (deletion false false) = o at h
    generalize ho' : applyLocalUserAction (deletion true true) = o' at h
    cases h <;> cases ho
    cases ho'

end Flotestro.HelperCap
