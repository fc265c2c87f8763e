import Flotestro.HelperCap.Analysis.Binding

/-!
# Secret bytes are released bytes

A place the payload names a secret for is held to a receipt.  A receipt whose signature
verifies was signed by the panel, and as a receipt: its signed bytes have one reading.  What
remains are the places of an accepted request the payload names no secret for: the binding
closes them for a file and a backup, and leaves the private key of a certificate and the
password of a repository open.
-/

set_option autoImplicit false

namespace Flotestro.HelperCap

open Library List

variable {p : Primitives} {v : Verifier} {capability : HelperCapability}

theorem receiptsByName_named {receipts : List SecretReceipt}
    {found result : List (Text × SecretReceipt)}
    (hfound : ∀ e ∈ found, e.2.secretName = e.1 ∧ e.1 ≠ text "")
    (h : receiptsByName found receipts = .ok result) :
    ∀ e ∈ result, e.2.secretName = e.1 ∧ e.1 ≠ text "" := by
  induction receipts generalizing found with
  | nil =>
    obtain rfl : found = result := by simpa [receiptsByName] using h
    exact hfound
  | cons r rest ih =>
    obtain ⟨hname, h⟩ := of_else h nofun
    obtain ⟨-, h⟩ := of_else h nofun
    exact ih (forall_mem_concat hfound ⟨rfl, hname⟩) h

theorem verifyReceipt_ok {receipt : SecretReceipt} (h : verifyReceipt p v receipt = .ok ()) :
    ∃ key, p.verify key (receiptSigningBytes receipt) receipt.signature = true := by
  unfold verifyReceipt at h
  split at h
  · cases h
  split at h
  · cases h
  next key _ =>
    obtain ⟨hverify, h⟩ := of_else h nofun
    refine ⟨key, ?_⟩
    simp only [verifyReceiptSignature, Bool.not_eq_true', Bool.not_eq_false] at hverify
    split at hverify
    · cases hverify
    · exact hverify

/-- A receipt that verifies is one the panel signed: the bytes have one reading. -/
theorem Panel.signed_of_verify (panel : Panel p) {key : Text} {receipt : SecretReceipt}
    (h : p.verify key (receiptSigningBytes receipt) receipt.signature = true) :
    ∃ r, panel.signed key (.receipt r) ∧ r.SameSigned receipt := by
  obtain ⟨m, hsigned, hbytes⟩ := panel.unforgeable _ _ _ h
  have hagree : m.Agree (.receipt receipt) := Message.bytes_eq_iff.mp hbytes
  cases m with
  | receipt r => exact ⟨r, hsigned, hagree⟩
  | capability c | trustBundle b | resultAck hostID ack | resultDigest hostID ack => exact hagree.elim

theorem checkSpend_released (panel : Panel p) {receipts : List (Text × SecretReceipt)}
    {spent : SecretSpend} (hnamed : ∀ e ∈ receipts, e.2.secretName = e.1 ∧ e.1 ≠ text "")
    (h : checkSpend p v capability receipts spent = .ok ()) :
    Released p panel capability ⟨spent.place, some spent.reference, spent.bytes⟩ := by
  unfold checkSpend at h
  split at h
  · cases h
  next receipt hlookup =>
    have hmem : (spent.reference.name, receipt) ∈ receipts := by
      obtain ⟨l₁, l₂, rfl, -⟩ := lookup_eq_some_iff.mp hlookup
      simp
    obtain ⟨hname, hne⟩ := hnamed _ hmem
    rw [then_ok_iff] at h
    obtain ⟨hverify, h⟩ := h
    obtain ⟨key, hkey⟩ := verifyReceipt_ok hverify
    obtain ⟨r, hsigned, hhost, htask, hsecret, hversion, hsum, -, -⟩ := panel.signed_of_verify hkey
    obtain ⟨hhost', h⟩ := of_else h nofun
    obtain ⟨htask', h⟩ := of_else h nofun
    obtain ⟨hpinned', h⟩ := of_else h nofun
    obtain ⟨hdigest, h⟩ := of_else h nofun
    rw [not_not] at hhost' htask' hdigest
    refine ⟨spent.reference, rfl, hne, key, r, hsigned, ?_, ?_, ?_, ?_, ?_⟩
    · rw [hhost, hhost']
    · rw [htask, htask']
    · rw [hsecret, hname]
    · intro hpinned
      rw [hversion]
      by_contra hno
      exact hpinned' ⟨hpinned, hno⟩
    · intro bytes
      rw [hsum, ← hdigest]
      exact p.sum_injective.eq_iff

theorem checkEach_released (panel : Panel p) {receipts : List (Text × SecretReceipt)}
    {places : List SecretSpend} (hnamed : ∀ e ∈ receipts, e.2.secretName = e.1 ∧ e.1 ≠ text "")
    (h : checkEach p v capability receipts places = .ok ()) :
    ∀ spent ∈ places, Released p panel capability ⟨spent.place, some spent.reference, spent.bytes⟩ := by
  induction places with
  | nil => simp
  | cons place rest ih =>
    rw [checkEach, then_ok_iff] at h
    intro spent hspent
    rcases mem_cons.mp hspent with rfl | hspent
    · exact checkSpend_released panel hnamed h.1
    · exact ih h.2 spent hspent

theorem spentSecrets_released (panel : Panel p) {request : HelperRequest} {payload : Payload}
    (h : checkSpentSecrets p v request capability payload = .ok ()) :
    ∀ spent ∈ spentSecrets request payload,
      Released p panel capability ⟨spent.place, some spent.reference, spent.bytes⟩ := by
  simp only [checkSpentSecrets] at h
  split at h
  next hempty =>
    rw [isEmpty_iff.mp hempty]
    simp
  · obtain ⟨receipts, hreceipts, h⟩ := bind_eq_ok.mp h
    exact checkEach_released panel (receiptsByName_named (by simp) hreceipts) h

/-! ## Fields of a request -/

theorem empty_eq_false_of_name {r : SecretRef} (h : r.name ≠ text "") :
    SecretRef.empty (some r) = false :=
  beq_false_of_ne h

theorem mem_spentEnvironment {r : BackupRequest} {b : BackupPayload} {name value : Text}
    {reference : SecretRef} (hvalue : r.env.get? name = some value)
    (hreference : b.envSecrets.get? name = some reference) :
    ⟨.environment name, reference, value⟩ ∈ spentEnvironment r b := by
  refine mem_filterMap.mpr ⟨name, ?_, by simp [hvalue, hreference]⟩
  exact (perm_insertionSort _ _).mem_iff.mpr (Dict.mem_keys_iff.mpr ⟨reference, hreference⟩)

section

variable (panel : Panel p) {receipts : List SecretReceipt} {payload : Payload}

theorem released_of_spend {request : HelperRequest} {place : Place} {bytes : Text}
    {named : Option SecretRef} {carried : Bool}
    (hspent : checkSpentSecrets p v request capability payload = .ok ())
    (hin : spend place named carried bytes ⊆ spentSecrets request payload)
    (hnamed : SecretRef.empty named = false) (hcarried : carried = true) :
    Released p panel capability ⟨place, named, bytes⟩ := by
  cases named with
  | none => cases hnamed
  | some r =>
    have hmem : ⟨place, r, bytes⟩ ∈ spend place (some r) carried bytes := by
      simp [spend, hnamed, hcarried]
    exact spentSecrets_released panel hspent _ (hin hmem)

theorem file_released {r : FileRequest}
    (hspent : checkSpentSecrets p v ⟨.file r, receipts⟩ capability payload = .ok ())
    (hok : checkBinding p ⟨.file r, receipts⟩ payload = .ok ()) :
    ∀ c ∈ carriedSecrets ⟨.file r, receipts⟩ payload, Released p panel capability c := by
  cases hf : payload.file with
  | none => simp [checkBinding, hf, binding] at hok
  | some f =>
    simp only [checkBinding, hf] at hok
    simp only [carriedSecrets, hf]
    by_cases hsecret : r.fromSecret = true
    · have hnamed : SecretRef.empty f.contentSecret = false := by
        have := sameFile_ok hok
        rw [hsecret] at this
        simpa using this.symm
      simp only [hsecret, if_true, mem_singleton, forall_eq]
      exact released_of_spend panel hspent (by simp [spentSecrets, hf]) hnamed hsecret
    · simp [hsecret]

theorem backup_released {r : BackupRequest}
    (hspent : checkSpentSecrets p v ⟨.backup r, receipts⟩ capability payload = .ok ())
    (hok : checkBinding p ⟨.backup r, receipts⟩ payload = .ok ()) :
    ∀ c ∈ carriedSecrets ⟨.backup r, receipts⟩ payload, c.bytes ≠ text "" →
      Released p panel capability c := by
  cases hb : payload.backup with
  | none => simp [checkBinding, hb, binding] at hok
  | some b =>
    simp only [checkBinding, hb] at hok
    simp only [carriedSecrets, hb, Option.bind_some]
    intro c hc hbytes
    rcases mem_cons.mp hc with rfl | hc
    · -- the password: the orders agree in whether there is one
      have hcarried : decide (r.password ≠ text "") = true := decide_eq_true hbytes
      have hnamed : SecretRef.empty b.passwordSecret = false := by
        have : decide (r.password ≠ text "") = !SecretRef.empty b.passwordSecret :=
          congrArg BackupOrder.hasPassword (sameBackup_ok hok).1
        rw [hcarried] at this
        simpa using this.symm
      exact released_of_spend panel hspent (by simp [spentSecrets, hb]) hnamed hcarried
    · -- a value of the environment: the orders agree in the names
      obtain ⟨⟨name, value⟩, he, rfl⟩ := mem_map.mp hc
      have hvalue : r.env.get? name = some value := Dict.get?_eq_some_iff.mpr he
      have hkey : name ∈ b.envSecrets.keys.1 :=
        (sameBackup_ok hok).2.mem_iff.mp (Dict.mem_keys_iff.mpr ⟨value, hvalue⟩)
      obtain ⟨reference, hreference⟩ := Dict.mem_keys_iff.mp hkey
      simp only [hreference]
      refine spentSecrets_released panel hspent ⟨.environment name, reference, value⟩ ?_
      simp [spentSecrets, hb, mem_spentEnvironment hvalue hreference]

end

theorem Released.named {panel : Panel p} {c : Carried} (h : Released p panel capability c) :
    SecretRef.empty c.named = false := by
  obtain ⟨reference, hnamed, hname, -⟩ := h
  rw [hnamed]
  exact empty_eq_false_of_name hname

/-- For every request that passes the check of its secrets and the binding, every non-empty
field that carries secret material holds bytes the panel released for it, exactly when the
payload names a secret wherever a certificate request carries a private key or a repository
request a password. -/
theorem secret_bytes_released_iff (p : Primitives) (panel : Panel p) (v : Verifier)
    (capability : HelperCapability) (payload : Payload) (request : HelperRequest)
    (hspent : checkSpentSecrets p v request capability payload = .ok ())
    (hok : checkBinding p request payload = .ok ()) :
    (∀ c ∈ carriedSecrets request payload, c.bytes ≠ text "" → Released p panel capability c) ↔
      NamesKeyAndPassword request payload := by
  obtain ⟨action, receipts⟩ := request
  cases action with
  | file r =>
    simp only [NamesKeyAndPassword, iff_true]
    exact fun c hc _ => file_released panel hspent hok c hc
  | localUser r => simp [NamesKeyAndPassword, carriedSecrets]
  | backup r =>
    simp only [NamesKeyAndPassword, iff_true]
    exact backup_released panel hspent hok
  | certificate r =>
    simp only [NamesKeyAndPassword, carriedSecrets, mem_singleton, forall_eq]
    constructor
    · exact fun h hbytes => (h hbytes).named
    · intro h hbytes
      have hnamed := h hbytes
      refine released_of_spend panel hspent ?_ hnamed (decide_eq_true hbytes)
      cases hc : payload.certificate with
      | none => simp [hc, SecretRef.empty] at hnamed
      | some c => simp [spentSecrets, hc]
  | repository r =>
    simp only [NamesKeyAndPassword, carriedSecrets, mem_singleton, forall_eq]
    constructor
    · exact fun h hbytes => (h hbytes).named
    · intro h hbytes
      have hnamed := h hbytes
      refine released_of_spend panel hspent ?_ hnamed (decide_eq_true hbytes)
      cases ho : payload.repository with
      | none => simp [ho, SecretRef.empty] at hnamed
      | some o => simp [spentSecrets, ho]

/-! ## A released password, and a private key nobody released -/

def plainPanel (m : Message) : Panel (plainPrimitives m) where
  signed _ m' := m' = m
  unforgeable _ _ _ h := ⟨m, rfl, (of_decide_eq_true h).symm⟩

def capabilityFor (host task : Text) : HelperCapability where
  schemaVersion := 1
  keyId := text "k"
  capabilityId := text "c"
  hostId := host
  taskId := task
  actionType := text "repository.set"
  payloadSha256 := text ""
  notBeforeUnix := 0
  expiresUnix := 60
  nonce := text ""
  policyRevision := 0
  grants := ⟨[], by decide⟩

def passwordReceipt : SecretReceipt where
  hostId := text "h"
  taskId := text "t"
  secretName := text "repo-password"
  secretVersion := 3
  sha256 := text "pw"
  issuedUnix := 0
  signedByKeyId := text "k"
  signature := ⟨replicate 64 0, by decide⟩

def repositoryPayload (passwordSecret : Option SecretRef) : RepositoryPayload where
  id := text "main"
  name := text ""
  url := text "u"
  suites := ⟨[], by decide⟩
  components := ⟨[], by decide⟩
  architectures := ⟨[], by decide⟩
  enabled := true
  priority := 0
  gpgKey := text ""
  allowUnsigned := false
  username := text ""
  passwordSecret := passwordSecret
  remove := false

def repositoryRequest (secretName password : Text) : RepositoryRequest where
  id := text "main"
  name := text ""
  url := text "u"
  suites := ⟨[], by decide⟩
  components := ⟨[], by decide⟩
  architectures := ⟨[], by decide⟩
  enabled := true
  priority := 0
  gpgKey := text ""
  allowUnsigned := false
  username := text ""
  password := password
  secretName := secretName
  remove := false

def repositoryOnly (payload : RepositoryPayload) : Payload :=
  ⟨none, none, some payload, none, none⟩

/-- A verifier at the time of issue that trusts one key. -/
def verifierOfKey : Verifier where
  keyring := some ⟨⟨[(text "k", ⟨replicate 32 0, by decide⟩)], by decide⟩, by decide⟩
  now := Moment.ofUnix 0

theorem secret_bytes_released_password :
    Released (plainPrimitives (.receipt passwordReceipt)) (plainPanel (.receipt passwordReceipt))
      (capabilityFor (text "h") (text "t"))
      ⟨.repositoryPassword, some ⟨text "repo-password", 3⟩, text "pw"⟩ := by
  have hnames : NamesKeyAndPassword
      ⟨.repository (repositoryRequest (text "repo-password") (text "pw")), [passwordReceipt]⟩
      (repositoryOnly (repositoryPayload (some ⟨text "repo-password", 3⟩))) := fun _ => by decide
  have hall := (secret_bytes_released_iff (plainPrimitives (.receipt passwordReceipt))
    (plainPanel (.receipt passwordReceipt)) verifierOfKey (capabilityFor (text "h") (text "t"))
    (repositoryOnly (repositoryPayload (some ⟨text "repo-password", 3⟩)))
    ⟨.repository (repositoryRequest (text "repo-password") (text "pw")), [passwordReceipt]⟩
    (by decide +kernel) (by decide +kernel)).mpr hnames
  exact hall _ (mem_singleton.mpr rfl) (by decide)

/-- A repository request that carries a password under a payload that names no secret passes
both checks; nobody released those bytes.  The password is in the order by the name of the
secret only, and the name is empty on both sides. -/
theorem password_without_secret_accepted :
    let request : HelperRequest := ⟨.repository (repositoryRequest (text "") (text "pw")), []⟩
    let payload := repositoryOnly (repositoryPayload none)
    let p := plainPrimitives (.receipt passwordReceipt)
    let capability := capabilityFor (text "h") (text "t")
    checkSpentSecrets p verifierOfKey request capability payload = .ok () ∧
      checkBinding p request payload = .ok () ∧
      ∃ c ∈ carriedSecrets request payload, c.bytes ≠ text "" ∧
        ¬ Released p (plainPanel (.receipt passwordReceipt)) capability c := by
  refine ⟨by decide +kernel, by decide +kernel, _, mem_singleton.mpr rfl, by decide, ?_⟩
  intro h
  exact absurd h.named (by decide)

end Flotestro.HelperCap
