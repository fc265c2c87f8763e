import Flotestro.Library.Runs
import Flotestro.HelperCap.Interface.Bound

/-!
# What a signature binds

Every append of the source adds a delimited encoding behind what is there, so the text of a
message is the text of its kind followed by the encodings of its fields.  The fields are
peeled off an equation of two such texts one by one; the texts of two kinds differ before
either ends.  A request is accepted when the comparisons of its kind let it through, and then agrees with
its payload in what they compare.
-/

set_option autoImplicit false

namespace Flotestro.HelperCap

open Library List

/-! ## The appends as encodings -/

def encodeTrustKey (key : HelperTrustKey) : Bytes := chunk key.keyId ++ chunk key.publicKey

theorem delimited_trustKey : Delimited encodeTrustKey := by
  have hpair : Delimited fun p : Text × Text => chunk p.1 ++ chunk p.2 :=
    delimited_chunk.prod delimited_chunk
  apply hpair.comp (f := fun key : HelperTrustKey => (key.keyId, key.publicKey))
  intro a b h
  exact HelperTrustKey.ext (congrArg Prod.fst h) (congrArg Prod.snd h)

@[simp] theorem appendUint_eq (out : Bytes) (v : UInt64) : appendUint out v = out ++ word v := rfl

@[simp] theorem appendBytes_eq (out : Bytes) (v : Text) : appendBytes out v = out ++ chunk v := by
  simp [appendBytes, chunk]

theorem foldl_append_eq {α : Type} {enc : α → Bytes} {step : Bytes → α → Bytes}
    (hstep : ∀ out a, step out a = out ++ enc a) (l : List α) (out : Bytes) :
    l.foldl step out = out ++ l.flatMap enc := by
  induction l generalizing out with
  | nil => simp
  | cons a l ih => simp [ih, hstep]

@[simp] theorem appendList_eq (out : Bytes) (name : Text) (values : Slice Text) :
    appendList out name values = out ++ (chunk name ++ counted chunk values) := by
  simp [appendList, foldl_append_eq appendBytes_eq, counted]

@[simp] theorem appendTuples_eq (out : Bytes) (name : Text) (tuples : Slice (Slice Text)) :
    appendTuples out name tuples = out ++ (chunk name ++ counted (counted chunk) tuples) := by
  have hstep : ∀ (out : Bytes) (tuple : Slice Text),
      tuple.1.foldl appendBytes (appendUint out (count tuple)) = out ++ counted chunk tuple := by
    intro out tuple
    simp [foldl_append_eq appendBytes_eq, counted]
  simp only [appendTuples, foldl_append_eq hstep]
  simp [counted]

def flagWord (value : Bool) : UInt64 := if value then 1 else 0

@[simp] theorem flagWord_eq_iff {a b : Bool} : flagWord a = flagWord b ↔ a = b := by
  cases a <;> cases b <;> decide

@[simp] theorem appendFlag_eq (out : Bytes) (name : Text) (value : Bool) :
    appendFlag out name value = out ++ (chunk name ++ word (flagWord value)) := by
  simp [appendFlag, flagWord]

@[simp] theorem int64_toUInt64_eq_iff {a b : Int64} : a.toUInt64 = b.toUInt64 ↔ a = b := by
  constructor
  · intro h
    cases a
    cases b
    exact congrArg Int64.ofUInt64 h
  · rintro rfl
    rfl

@[simp] theorem int32_toInt64_eq_iff {a b : Int32} : a.toInt64 = b.toInt64 ↔ a = b := by
  constructor
  · intro h
    have := congrArg Int64.toInt h
    simpa [Int32.toInt_inj] using this
  · rintro rfl
    rfl

/-! ## The texts of the messages -/

inductive Kind where
  | capability
  | receipt
  | trustBundle
  | resultAck
  | resultDigest
  | packageOrder
  | repositoryOrder
  | backupOrder
deriving DecidableEq

/-- The text a kind starts with. -/
def Kind.mark : Kind → Bytes
  | .capability => signingPrefix
  | .receipt => receiptPrefix
  | .trustBundle => trustPrefix
  | .resultAck => resultAckPrefix
  | .resultDigest => resultAckDigestPrefix
  | .packageOrder => packageOrderPrefix
  | .repositoryOrder => repositoryOrderPrefix
  | .backupOrder => backupOrderPrefix

/-- The marks are told apart by their first 24 bytes, which every mark has. -/
theorem Kind.eq_of_mark {k k' : Kind} {b : Bytes} (h : ∃ s, b = k.mark ++ s)
    (h' : ∃ s, b = k'.mark ++ s) : k = k' := by
  obtain ⟨s, hs⟩ := h
  obtain ⟨t, ht⟩ := h'
  have hlen : ∀ k : Kind, 24 ≤ k.mark.length := by
    intro k
    cases k <;> decide
  have htake : k.mark.take 24 = k'.mark.take 24 := by
    have := congrArg (List.take 24) (hs.symm.trans ht)
    rwa [take_append_of_le_length (hlen k), take_append_of_le_length (hlen k')] at this
  revert htake
  cases k <;> cases k' <;> decide

theorem foldl_keys (keys : List HelperTrustKey) (out : Bytes) :
    keys.foldl (fun out key => appendBytes (appendBytes out key.keyId) key.publicKey) out =
      out ++ keys.flatMap encodeTrustKey :=
  foldl_append_eq (fun out key => by simp [encodeTrustKey]) keys out

theorem count_append_flatMap {α : Type} (enc : α → Bytes) (l : Slice α) :
    word (count l) ++ l.1.flatMap enc = counted enc l := rfl

theorem signingBytes_eq_iff {c c' : HelperCapability} :
    signingBytes c = signingBytes c' ↔ c = c' := by
  simp [signingBytes, foldl_append_eq appendBytes_eq, count_append_flatMap,
    HelperCapability.ext_iff, delimited_word.append_iff, delimited_chunk.append_iff,
    delimited_chunk.counted.eq_iff, UInt32.toUInt64_inj]

theorem receiptSigningBytes_eq_iff {r r' : SecretReceipt} :
    receiptSigningBytes r = receiptSigningBytes r' ↔ r.SameSigned r' := by
  simp [receiptSigningBytes, delimited_word.append_iff, delimited_chunk.append_iff,
    delimited_chunk.eq_iff, UInt32.toUInt64_inj, SecretReceipt.SameSigned]

theorem trustBundleSigningBytes_eq_iff {b b' : HelperTrustBundle} :
    trustBundleSigningBytes b = trustBundleSigningBytes b' ↔ b.SameSigned b' := by
  simp only [trustBundleSigningBytes, foldl_keys]
  simp [count_append_flatMap, delimited_word.append_iff, delimited_chunk.append_iff,
    delimited_trustKey.counted.eq_iff, HelperTrustBundle.SameSigned]

variable {hostID hostID' : Text} {ack ack' : TaskResultAck}

/-- An acknowledgement is told from whatever follows it: one signature embeds it
whole. -/
theorem resultAckSigningBytes_append_iff {s t : Bytes} :
    resultAckSigningBytes hostID ack ++ s = resultAckSigningBytes hostID' ack' ++ t ↔
      TaskResultAck.SameSigned hostID ack hostID' ack' ∧ s = t := by
  simp [resultAckSigningBytes, delimited_word.append_iff, delimited_chunk.append_iff,
    TaskResultAck.SameSigned, and_assoc]

theorem resultAckSigningBytes_eq_iff :
    resultAckSigningBytes hostID ack = resultAckSigningBytes hostID' ack' ↔
      TaskResultAck.SameSigned hostID ack hostID' ack' := by
  have h : resultAckSigningBytes hostID ack ++ [] = resultAckSigningBytes hostID' ack' ++ [] ↔ _ :=
    resultAckSigningBytes_append_iff
  simpa using h

theorem resultAckDigestSigningBytes_eq_iff :
    resultAckDigestSigningBytes hostID ack = resultAckDigestSigningBytes hostID' ack' ↔
      TaskResultAck.SameSigned hostID ack hostID' ack' ∧ ack.resultDigest = ack'.resultDigest := by
  simp [resultAckDigestSigningBytes, resultAckSigningBytes_append_iff, delimited_chunk.eq_iff]

/-! ## The texts of the orders -/

theorem PackageOrder.preimage_eq_iff {o o' : PackageOrder} : o.preimage = o'.preimage ↔ o = o' := by
  simp [PackageOrder.preimage, PackageOrder.ext_iff, delimited_word.append_iff,
    delimited_chunk.append_iff, delimited_chunk.counted.append_iff,
    delimited_chunk.counted.counted.eq_iff, UInt32.toUInt64_inj]

theorem RepositoryOrder.preimage_eq_iff {o o' : RepositoryOrder} :
    o.preimage = o'.preimage ↔ o = o' := by
  simp [RepositoryOrder.preimage, RepositoryOrder.ext_iff, delimited_word.append_iff,
    delimited_word.eq_iff, delimited_chunk.append_iff, delimited_chunk.counted.append_iff]

theorem BackupOrder.sortedNames_eq_iff {o o' : BackupOrder} :
    o.sortedNames = o'.sortedNames ↔ o.envNames.1.Perm o'.envNames.1 := by
  rw [Subtype.ext_iff]
  exact sortTexts_eq_iff

theorem BackupOrder.preimage_eq_iff {o o' : BackupOrder} :
    o.preimage = o'.preimage ↔ o.Agree o' := by
  cases o
  cases o'
  simp [BackupOrder.preimage, BackupOrder.Agree, delimited_word.append_iff,
    delimited_chunk.append_iff, delimited_chunk.counted.append_iff, delimited_chunk.counted.eq_iff,
    BackupOrder.sortedNames_eq_iff, and_assoc]

def Message.kind : Message → Kind
  | .capability _ => .capability
  | .receipt _ => .receipt
  | .trustBundle _ => .trustBundle
  | .resultAck _ _ => .resultAck
  | .resultDigest _ _ => .resultDigest

def Order.kind : Order → Kind
  | .package _ => .packageOrder
  | .repository _ => .repositoryOrder
  | .backup _ => .backupOrder

theorem Message.bytes_eq_mark (m : Message) : ∃ s, m.bytes = m.kind.mark ++ s := by
  cases m with
  | trustBundle b =>
    simp only [Message.bytes, trustBundleSigningBytes]
    simp [Message.kind, Kind.mark]
  | _ =>
    simp [Message.bytes, Message.kind, Kind.mark, signingBytes, receiptSigningBytes,
      resultAckSigningBytes, resultAckDigestSigningBytes, foldl_append_eq appendBytes_eq]

theorem Order.preimage_eq_mark (o : Order) : ∃ s, o.preimage = o.kind.mark ++ s := by
  cases o <;> simp [Order.preimage, Order.kind, Kind.mark, PackageOrder.preimage,
    RepositoryOrder.preimage, BackupOrder.preimage]

/-- The signed bytes of two messages are equal exactly when the messages agree. -/
theorem Message.bytes_eq_iff {m m' : Message} : m.bytes = m'.bytes ↔ m.Agree m' := by
  by_cases hkind : m.kind = m'.kind
  · -- one kind: the fields are peeled off
    cases m <;> cases m' <;> simp only [Message.kind, reduceCtorEq] at hkind
    · exact signingBytes_eq_iff
    · exact receiptSigningBytes_eq_iff
    · exact trustBundleSigningBytes_eq_iff
    · exact resultAckSigningBytes_eq_iff
    · exact resultAckDigestSigningBytes_eq_iff
  · -- two kinds: the marks differ, and nothing agrees
    have hbytes : m.bytes ≠ m'.bytes := fun h =>
      hkind (Kind.eq_of_mark m.bytes_eq_mark (h ▸ m'.bytes_eq_mark))
    cases m <;> cases m' <;> first | exact absurd rfl hkind | simp [Message.Agree, hbytes]

theorem Order.preimage_eq_iff {o o' : Order} : o.preimage = o'.preimage ↔ o.Agree o' := by
  by_cases hkind : o.kind = o'.kind
  · cases o <;> cases o' <;> simp only [Order.kind, reduceCtorEq] at hkind
    · exact PackageOrder.preimage_eq_iff
    · exact RepositoryOrder.preimage_eq_iff
    · exact BackupOrder.preimage_eq_iff
  · have hpreimage : o.preimage ≠ o'.preimage := fun h =>
      hkind (Kind.eq_of_mark o.preimage_eq_mark (h ▸ o'.preimage_eq_mark))
    cases o <;> cases o' <;> first | exact absurd rfl hkind | simp [Order.Agree, hpreimage]

/-- Everything the panel key signs has one reading, whatever its fields hold: two messages
have the same signing bytes exactly when they are of one kind and agree in every signed
field, and two orders are hashed from the same text exactly when they are of one kind and
equal, the environment names of a backup up to their order. -/
theorem one_reading : (∀ m m' : Message, m.bytes = m'.bytes ↔ m.Agree m') ∧
      (∀ o o' : Order, o.preimage = o'.preimage ↔ o.Agree o') :=
  ⟨fun _ _ => Message.bytes_eq_iff, fun _ _ => Order.preimage_eq_iff⟩

theorem same_ok_iff {what : String} {got want : Text} :
    same what got want = .ok () ↔ got = want := by
  by_cases h : got = want <;> simp [same, binding]

theorem sameList_ok_iff {what : String} {got want : List Text} :
    sameList what got want = .ok () ↔ got.Perm want := by
  rw [← sortTexts_eq_iff]
  by_cases h : sortTexts got = sortTexts want <;> simp [sameList, binding]

theorem Primitives.eq_of_digest (p : Primitives) {b b' : Bytes} {d : Text}
    (h : p.digest b = some d) (h' : p.digest b' = some d) : b = b' := by
  unfold Primitives.digest at h h'
  split at h
  · split at h'
    · have hsum := p.sum_injective ((Option.some.inj h).trans (Option.some.inj h').symm)
      exact congrArg Subtype.val hsum
    · cases h'
  · cases h

/-! ## The kinds of request -/

theorem sameAccount_ok_iff {r : LocalUserActionRequest} {u : LocalUserPayload} :
    sameAccount r u = .ok () ↔ r.name = u.name ∧ r.sshKeys.Perm u.sshKeys ∧
      (publicKeys r.keys).Perm (publicKeys u.keys) ∧ r.fingerprints.Perm u.fingerprints ∧
      r.groups.Perm u.groups ∧ r.shell = u.shell ∧ r.expiresAt = u.expiresAt := by
  simp only [sameAccount, then_ok_iff, same_ok_iff, sameList_ok_iff]

variable {p : Primitives} {r : BackupRequest} {b : BackupPayload}

theorem sameContent_ok {r : FileRequest} {f : FilePayload} (h : sameContent p r f = .ok ()) :
    r.fromSecret = !SecretRef.empty f.contentSecret := by
  by_contra hne
  simp [sameContent, hne, binding, bind, Except.bind] at h

/-- A file is filled from a secret exactly when the payload names one. -/
theorem sameFile_ok {r : FileRequest} {f : FilePayload} (h : sameFile p r f = .ok ()) :
    r.fromSecret = !SecretRef.empty f.contentSecret := by
  simp only [sameFile, then_ok_iff] at h
  obtain ⟨_, _, _, _, _, _, h⟩ := h
  split at h
  · simp [binding, bind, Except.bind] at h
  · exact sameContent_ok h

/-- An accepted backup is the order the panel signed. -/
theorem sameBackup_ok (h : sameBackup p r b = .ok ()) :
    (orderOfRequest r).Agree (orderOfPayload b) := by
  simp only [sameBackup, then_ok_iff] at h
  obtain ⟨_, h⟩ := h
  split at h
  next got want hgot hwant =>
    split at h
    · simp [binding] at h
    next heq =>
      have hsame : got = want := not_not.mp heq
      subst hsame
      exact BackupOrder.preimage_eq_iff.mp (p.eq_of_digest hgot hwant)
  · simp [binding] at h

end Flotestro.HelperCap
