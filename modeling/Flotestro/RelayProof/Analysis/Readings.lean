import Flotestro.RelayProof.Model.Signing

/-!
# One reading of what is signed

Envelopes and one-time keys begin with words of their own and have their fields behind lengths; a
renewal begins with the tag of a sequence, which is the first byte of neither, and the sequence tells
its own end.  So no two things a host key signs have the same bytes.
-/

set_option autoImplicit false

namespace Flotestro.RelayProof

open Library List

/-! ## Sequences of DER -/

theorem length_bigEndian (n : Nat) : (bigEndian n).length = (Nat.digits 256 n).length := by
  simp [bigEndian]

theorem bigEndian_injective : Function.Injective bigEndian := by
  have hread : ∀ n, getLE (bigEndian n).reverse = n := by
    intro n
    rw [bigEndian, reverse_reverse]
    exact getLE_putLE_of_lt (Nat.lt_base_pow_length_digits (by decide))
  intro m n h
  rw [← hread m, ← hread n, h]

theorem length_bigEndian_le {n : Nat} (h : n < 2 ^ 63) : (bigEndian n).length ≤ 8 := by
  rw [length_bigEndian, Nat.digits_length_le_iff (by decide)]
  exact lt_trans h (by decide)

/-- The first byte tells how many bytes of the length follow. -/
theorem derLength_append {m n : Nat} {s t : Bytes} (hm : m < 2 ^ 63) (hn : n < 2 ^ 63)
    (h : derLength m ++ s = derLength n ++ t) : m = n ∧ s = t := by
  have hbyte : ∀ {a b : Nat}, a < 256 → b < 256 → UInt8.ofNat a = UInt8.ofNat b → a = b := by
    intro a b ha hb hab
    rw [← UInt8.toNat_ofNat_of_lt' ha, ← UInt8.toNat_ofNat_of_lt' hb, hab]
  have hml := length_bigEndian_le hm
  have hnl := length_bigEndian_le hn
  unfold derLength at h
  split at h
  next hshort =>
    split at h
    next hshort' =>
      obtain ⟨hhead, hrest⟩ := List.cons.inj h
      exact ⟨hbyte (by omega) (by omega) hhead, hrest⟩
    next hlong' =>
      have := hbyte (by omega) (by omega) (List.cons.inj h).1
      omega
  next hlong =>
    split at h
    next hshort' =>
      have := hbyte (by omega) (by omega) (List.cons.inj h).1
      omega
    next hlong' =>
      obtain ⟨hhead, hrest⟩ := List.cons.inj h
      have hlen := hbyte (by omega) (by omega) hhead
      obtain ⟨hbytes, hst⟩ := append_inj hrest (by omega)
      exact ⟨bigEndian_injective hbytes, hst⟩

theorem delimited_der : Delimited Der.bytes := by
  rintro ⟨_, content, rfl⟩ ⟨_, content', rfl⟩ s t h
  simp only [derSequence, cons_append, append_assoc, List.cons.injEq, true_and] at h
  obtain ⟨hlen, hrest⟩ := derLength_append content.2 content'.2 h
  obtain ⟨hcontent, hst⟩ := append_inj hrest hlen
  obtain rfl : content = content' := Subtype.ext hcontent
  exact ⟨rfl, hst⟩

theorem toUInt64_uint32_injective : Function.Injective UInt32.toUInt64 := by
  intro a b h
  apply UInt32.toNat_inj.mp
  have := congrArg UInt64.toNat h
  simpa using this

theorem toUInt64_int64_injective : Function.Injective Int64.toUInt64 := by
  rintro ⟨a⟩ ⟨b⟩ h
  obtain rfl : a = b := h
  rfl

theorem signingBytes_injective : Function.Injective signingBytes := by
  intro e f h
  simp only [signingBytes, appendUint, appendBytes, append_assoc, append_cancel_left_eq,
    delimited_word.append_iff, delimited_chunk.append_iff, delimited_chunk.eq_iff] at h
  obtain ⟨hschema, hrelay, hhost, hserial, hsession, hsequence, hissued, hnonce, hkind, hbody⟩ := h
  have hschema' := toUInt64_uint32_injective hschema
  have hissued' := toUInt64_int64_injective hissued
  cases e
  cases f
  simp_all

theorem ephemeralKeySigningBytes_inj {a b c a' b' c' : Text}
    (h : ephemeralKeySigningBytes a b c = ephemeralKeySigningBytes a' b' c') :
    a = a' ∧ b = b' ∧ c = c' := by
  simp only [ephemeralKeySigningBytes, appendBytes, append_assoc, append_cancel_left_eq,
    delimited_chunk.append_iff, delimited_chunk.eq_iff] at h
  exact h

theorem renewalProofBytes_inj {csr csr' : Der} {c c' : List.Vector UInt8 challengeSize}
    {relay relay' : Text} (h : renewalProofBytes csr c relay = renewalProofBytes csr' c' relay') :
    csr = csr' ∧ c = c' ∧ relay = relay' := by
  simp only [renewalProofBytes, append_assoc] at h
  obtain ⟨hcsr, hrest⟩ := delimited_der h
  obtain ⟨hchallenge, hrelay⟩ := append_inj hrest (by simp)
  exact ⟨hcsr, List.Vector.toList_injective hchallenge, Subtype.ext hrelay⟩

/-- What an envelope, a one-time key and a renewal begin with. -/
theorem signingBytes_begins (e : Envelope) : ∃ rest, signingBytes e = envelopePrefix ++ rest := by
  exact ⟨_, rfl⟩

theorem ephemeralKey_begins (a b c : Text) :
    ∃ rest, ephemeralKeySigningBytes a b c = ephemeralPrefix ++ rest := by
  exact ⟨_, rfl⟩

theorem renewal_begins (csr : Der) (c : List.Vector UInt8 challengeSize) (relay : Text) :
    (renewalProofBytes csr c relay)[0]? = some 48 := by
  obtain ⟨_, content, rfl⟩ := csr
  rfl

theorem prefixes_differ {s t : Bytes} : envelopePrefix ++ s ≠ ephemeralPrefix ++ t := by
  intro h
  have hbyte := congrArg (fun l => l[10]?) h
  cases hbyte

theorem preimage_injective : Function.Injective Signed.preimage := by
  have henvelope : ∀ e csr c relay, signingBytes e ≠ renewalProofBytes csr c relay := by
    intro e csr c relay h
    obtain ⟨rest, hrest⟩ := signingBytes_begins e
    have hbyte := renewal_begins csr c relay
    rw [← h] at hbyte
    cases hbyte
  have hkey : ∀ x y z csr c relay, ephemeralKeySigningBytes x y z ≠ renewalProofBytes csr c relay := by
    intro x y z csr c relay h
    obtain ⟨rest, hrest⟩ := ephemeralKey_begins x y z
    have hbyte := renewal_begins csr c relay
    rw [← h] at hbyte
    cases hbyte
  have hboth : ∀ e x y z, signingBytes e ≠ ephemeralKeySigningBytes x y z := by
    intro e x y z h
    obtain ⟨rest, hrest⟩ := signingBytes_begins e
    obtain ⟨rest', hrest'⟩ := ephemeralKey_begins x y z
    exact prefixes_differ h
  intro a b h
  cases a with
  | envelope e =>
    cases b with
    | envelope f => rw [signingBytes_injective h]
    | ephemeralKey x y z => exact absurd h (hboth e x y z)
    | renewal csr c relay => exact absurd h (henvelope e csr c relay)
  | ephemeralKey x y z =>
    cases b with
    | envelope f => exact absurd h.symm (hboth f x y z)
    | ephemeralKey x' y' z' =>
      obtain ⟨rfl, rfl, rfl⟩ := ephemeralKeySigningBytes_inj h
      rfl
    | renewal csr c relay => exact absurd h (hkey x y z csr c relay)
  | renewal csr c relay =>
    cases b with
    | envelope f => exact absurd h.symm (henvelope f csr c relay)
    | ephemeralKey x y z => exact absurd h.symm (hkey x y z csr c relay)
    | renewal csr' c' relay' =>
      obtain ⟨rfl, rfl, rfl⟩ := renewalProofBytes_inj h
      rfl

/-! ## Associated data -/

theorem isUuid_spec {s : Bytes} (h : isUuid s = true) :
    s.length = 36 ∧ ∃ b rest, s = b :: rest ∧ isHexDigit b = true := by
  unfold isUuid at h
  rw [Bool.and_eq_true, decide_eq_true_iff, all_eq_true] at h
  obtain ⟨hlen, hall⟩ := h
  refine ⟨hlen, ?_⟩
  cases s with
  | nil => cases hlen
  | cons b rest =>
    have hfirst := hall 0 (by decide)
    exact ⟨b, rest, rfl, by simpa using hfirst⟩

theorem separator_notMem_name {s : Bytes} (h : validateName s = true) : 124 ∉ s := by
  cases s with
  | nil => exact not_mem_nil
  | cons b s =>
    rw [validateName, Bool.and_eq_true, Bool.and_eq_true, all_eq_true] at h
    obtain ⟨⟨hfirst, hrest⟩, -⟩ := h
    intro hmem
    rcases mem_cons.mp hmem with rfl | hmem
    · cases hfirst
    · exact absurd (hrest 124 hmem) (by decide)

/-- What stands before the first separator and what stands behind it. -/
theorem append_separator_inj {c : UInt8} {a b s t : Bytes} (ha : c ∉ a) (hb : c ∉ b)
    (h : a ++ c :: s = b ++ c :: t) : a = b ∧ s = t := by
  induction a generalizing b with
  | nil =>
    cases b with
    | nil => exact ⟨rfl, (List.cons.inj h).2⟩
    | cons e b => exact absurd ((List.cons.inj h).1 ▸ mem_cons_self) hb
  | cons d a ih =>
    cases b with
    | nil => exact absurd ((List.cons.inj h).1 ▸ mem_cons_self) ha
    | cons e b =>
      obtain ⟨rfl, hrest⟩ := List.cons.inj h
      obtain ⟨rfl, rfl⟩ := ih (fun hm => ha (mem_cons_of_mem d hm))
        (fun hm => hb (mem_cons_of_mem d hm)) hrest
      exact ⟨rfl, rfl⟩

theorem decimal_injective : Function.Injective decimal := by
  intro m n h
  have hread := congrArg parseDecimal h
  rw [parseDecimal_decimal, parseDecimal_decimal] at hread
  exact Option.some.inj hread

theorem secretAAD_inj {task task' name name' : Bytes} {version version' : UInt32}
    (htask : isUuid task = true) (htask' : isUuid task' = true) (hname : validateName name = true)
    (hname' : validateName name' = true)
    (h : secretAAD task name version = secretAAD task' name' version') :
    task = task' ∧ name = name' ∧ version = version' := by
  simp only [secretAAD, append_assoc] at h
  obtain ⟨rfl, hrest⟩ := append_inj h (by rw [(isUuid_spec htask).1, (isUuid_spec htask').1])
  rw [append_cancel_left_eq] at hrest
  obtain ⟨rfl, hversion⟩ := append_separator_inj (separator_notMem_name hname)
    (separator_notMem_name hname') hrest
  exact ⟨rfl, rfl, UInt32.toNat_inj.mp (decimal_injective hversion)⟩

/-- A UUID does not begin as the word before a receipt does. -/
theorem secretAAD_ne_receipt {task task' name name' : Bytes} {version version' : UInt32}
    (htask : isUuid task = true) :
    secretAAD task name version ≠ secretReceiptAAD task' name' version' := by
  obtain ⟨-, b, rest, rfl, hb⟩ := isUuid_spec htask
  intro h
  have hfirst : b = 114 := (List.cons.inj h).1
  rw [hfirst] at hb
  cases hb

theorem aad_injective : Function.Injective Release.aad := by
  rintro ⟨kind, task, name, version, htask, hname⟩ ⟨kind', task', name', version', htask', hname'⟩ h
  cases kind with
  | value =>
    cases kind' with
    | value =>
      obtain ⟨rfl, rfl, rfl⟩ := secretAAD_inj htask htask' hname hname' h
      rfl
    | receipt => exact absurd h (secretAAD_ne_receipt htask)
  | receipt =>
    cases kind' with
    | value => exact absurd h.symm (secretAAD_ne_receipt htask')
    | receipt =>
      obtain ⟨rfl, rfl, rfl⟩ :=
        secretAAD_inj htask htask' hname hname' (append_cancel_left h)
      rfl

/-- **Everything a host key signs has one reading**: what is signed is told from its bytes,
of whichever kind it is, and so is what a sealed value or receipt is bound to. -/
theorem signed_has_one_reading :
    (∀ a b : Signed, a.preimage = b.preimage → a = b) ∧ ∀ r q : Release, r.aad = q.aad → r = q :=
  ⟨fun _ _ h => preimage_injective h, fun _ _ h => aad_injective h⟩

end Flotestro.RelayProof
