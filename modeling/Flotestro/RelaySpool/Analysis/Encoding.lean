import Flotestro.RelaySpool.Interface.Conditions

/-!
# What the encoding of a record keeps

A body decodes to a record exactly when the record is `Encodable` and its encoding stands
at the front of the body (`decode_eq_some_iff`).  The round trip, the identifier of a
decoded record and the size of a rewritten one all follow from that.
-/

set_option autoImplicit false

namespace Flotestro.RelaySpool

open Library List
open Option (bind_eq_some_iff ite_none_left_eq_some)

/-! ## Words and strings -/

theorem unixNano_lt (t : Int) : unixNano t < 256 ^ 8 := by
  unfold unixNano
  omega

theorem int64_unixNano {t : Int} (h : FitsInt64 t) : int64 (unixNano t) = t := by
  unfold FitsInt64 at h
  unfold int64 unixNano
  split <;> omega

variable {r : Record} {n w : Nat} {body rest : Bytes}

theorem unixNano_int64 (h : n < 2 ^ 64) : unixNano (int64 n) = n := by
  unfold int64 unixNano
  split <;> omega

theorem fitsInt64_int64 (h : n < 2 ^ 64) : FitsInt64 (int64 n) := by
  unfold FitsInt64 int64
  split <;> omega

theorem expiryWord_lt (e : Option Time) : expiryWord e < 256 ^ 8 := by
  cases e with
  | none => simp [expiryWord]
  | some t => exact unixNano_lt t

theorem expiryOf_expiryWord {e : Option Time}
    (h : ∀ t, e = some t → FitsInt64 t ∧ t ≠ 0) : expiryOf (expiryWord e) = e := by
  cases e with
  | none => rfl
  | some t =>
    obtain ⟨hfit, h0⟩ := h t rfl
    have hw : unixNano t ≠ 0 := fun hw => h0 (by rw [← int64_unixNano hfit, hw]; rfl)
    simp [expiryWord, expiryOf, hw, int64_unixNano hfit]

theorem expiryWord_expiryOf (h : n < 2 ^ 64) : expiryWord (expiryOf n) = n := by
  unfold expiryOf
  split
  · simp [expiryWord, *]
  · simp [expiryWord, unixNano_int64 h]

theorem expiryOf_fits (h : n < 2 ^ 64) (t : Int) (ht : expiryOf n = some t) :
    FitsInt64 t ∧ t ≠ 0 := by
  unfold expiryOf at ht
  split at ht
  · cases ht
  rename_i h0
  cases ht
  refine ⟨fitsInt64_int64 h, fun hz => h0 ?_⟩
  rw [← unixNano_int64 h, hz]
  rfl

theorem word64 {bs : Bytes} (h : bs.length = 8) : getLE bs < 2 ^ 64 ∧ putLE 8 (getLE bs) = bs := by
  have hlt := getLE_lt bs
  have hput := putLE_getLE bs
  rw [h] at hlt hput
  exact ⟨hlt, hput⟩

/-- A string is read back from behind its length exactly when the length fits. -/
theorem readString_eq_some_iff {r v : Bytes} : readString w r = some (v, rest) ↔
      v.length < 256 ^ w ∧ r = putLE w v.length ++ (v ++ rest) := by
  constructor
  · intro h
    simp only [readString, Option.bind_eq_bind, bind_eq_some_iff, Prod.exists] at h
    obtain ⟨length, r', hl, hv⟩ := h
    obtain ⟨rfl, rfl⟩ := readFull_eq_some_iff.mp hl
    obtain ⟨rfl, hlen⟩ := readFull_eq_some_iff.mp hv
    rw [hlen, putLE_getLE]
    exact ⟨getLE_lt length, rfl⟩
  · rintro ⟨hlt, rfl⟩
    simp only [readString, Option.bind_eq_bind, readFull_append _ (length_putLE w v.length),
      Option.bind_some, getLE_putLE_of_lt hlt]
    exact readFull_append _ rfl

section

variable {α : Type} {f : Bytes × Bytes → Option α} {a : α} {v : Bytes}

theorem of_readFull_bind (h : (readFull n body >>= f) = some a) :
    ∃ v rest, body = v ++ rest ∧ v.length = n ∧ f (v, rest) = some a := by
  obtain ⟨⟨v, rest⟩, hv, h⟩ := bind_eq_some_iff.mp h
  obtain ⟨hbody, hlen⟩ := readFull_eq_some_iff.mp hv
  exact ⟨v, rest, hbody, hlen, h⟩

theorem of_readFixed_bind {f : List.Vector UInt8 n × Bytes → Option α}
    (h : (readFixed n body >>= f) = some a) : ∃ v rest, body = v.toList ++ rest ∧ f (v, rest) = some a := by
  obtain ⟨⟨v, rest⟩, hv, h⟩ := bind_eq_some_iff.mp h
  exact ⟨v, rest, readFixed_eq_some_iff.mp hv, h⟩

theorem of_readString_bind (h : (readString w body >>= f) = some a) : ∃ v rest,
    body = putLE w v.length ++ (v ++ rest) ∧ v.length < 256 ^ w ∧ f (v, rest) = some a := by
  obtain ⟨⟨v, rest⟩, hv, h⟩ := bind_eq_some_iff.mp h
  obtain ⟨hlen, hbody⟩ := readString_eq_some_iff.mp hv
  exact ⟨v, rest, hbody, hlen, h⟩

theorem readFull_append_bind (h : v.length = n) : (readFull n (v ++ rest) >>= f) = f (v, rest) := by
  rw [readFull_append _ h]
  rfl

theorem readFixed_append_bind (v : List.Vector UInt8 n) (f : List.Vector UInt8 n × Bytes → Option α) :
    (readFixed n (v.toList ++ rest) >>= f) = f (v, rest) := by
  rw [readFixed_append]
  rfl

theorem readString_put_bind (h : v.length < 256 ^ w) :
    (readString w (putLE w v.length ++ (v ++ rest)) >>= f) = f (v, rest) := by
  rw [readString_eq_some_iff.mpr ⟨h, rfl⟩]
  rfl

end

theorem Record.length_encode (r : Record) : r.encode.length = r.bodySize := by
  simp only [Record.encode, Record.bodySize, put16, put32, length_cons, length_append,
    length_putLE, List.Vector.toList_length]
  omega

theorem encode_eq_strings (r : Record) (rest : Bytes) : r.encode ++ rest =
      [bodyVersion] ++ (r.id.toList ++ ([r.priority] ++ (putLE 8 r.sequence.toNat ++
      (putLE 8 (unixNano r.createdAt) ++ (putLE 8 (expiryWord r.expiresAt) ++
      (putLE 2 r.site.length ++ (r.site ++ (putLE 2 r.hostID.length ++ (r.hostID ++
      (putLE 2 r.sessionID.length ++ (r.sessionID ++ (putLE 1 r.stream.length ++ (r.stream ++
      (r.payloadHash.toList ++ (putLE 4 r.envelope.length ++ (r.envelope ++
      (putLE 4 r.payload.length ++ (r.payload ++ rest)))))))))))))))))) := by
  simp [Record.encode, put16, put32, putLE]

/-- **The bodies `decode` takes.**  A body is taken exactly when it starts with the
encoding of an encodable record. -/
theorem decode_eq_some_iff :
    decode body = some r ↔ r.Encodable ∧ ∃ rest, body = r.encode ++ rest := by
  constructor
  · intro h
    obtain ⟨version, r₀, hv, -, h⟩ := of_readFull_bind h
    obtain ⟨hversion, h⟩ := ite_none_left_eq_some.mp h
    obtain ⟨id, r₁, hid, h⟩ := of_readFixed_bind h
    obtain ⟨priority, r₂, hpriority, hplen, h⟩ := of_readFull_bind h
    obtain ⟨sequence, r₃, hsequence, hslen, h⟩ := of_readFull_bind h
    obtain ⟨created, r₄, hcreated, hclen, h⟩ := of_readFull_bind h
    obtain ⟨expires, r₅, hexpires, helen, h⟩ := of_readFull_bind h
    obtain ⟨site, r₆, hsite, hsite16, h⟩ := of_readString_bind h
    obtain ⟨hostID, r₇, hhost, hhost16, h⟩ := of_readString_bind h
    obtain ⟨sessionID, r₈, hsession, hsession16, h⟩ := of_readString_bind h
    obtain ⟨stream, r₉, hstream, hstream8, h⟩ := of_readString_bind h
    obtain ⟨payloadHash, r₁₀, hfixed, h⟩ := of_readFixed_bind h
    obtain ⟨envelope, r₁₁, henvelope, henvelope32, h⟩ := of_readString_bind h
    obtain ⟨payload, rest, hpayload, hpayload32, h⟩ := of_readString_bind h
    obtain ⟨hhash, h⟩ := ite_none_left_eq_some.mp h
    obtain ⟨b, rfl⟩ := length_eq_one_iff.mp hplen
    obtain ⟨hs64, hs⟩ := word64 hslen
    obtain ⟨hc64, hc⟩ := word64 hclen
    obtain ⟨he64, he⟩ := word64 helen
    cases h
    refine ⟨⟨hsite16, hhost16, hsession16, hstream8, henvelope32, hpayload32, not_not.mp hhash,
      fitsInt64_int64 hc64, expiryOf_fits he64⟩, rest, ?_⟩
    rw [hv, hid, hpriority, hsequence, hcreated, hexpires, hsite, hhost, hsession, hstream, hfixed,
      henvelope, hpayload, encode_eq_strings]
    simp [UInt64.toNat_ofNat_of_lt' hs64, unixNano_int64 hc64, expiryWord_expiryOf he64, hs, hc, he,
      not_not.mp hversion, getLE]
  · rintro ⟨he, rest, rfl⟩
    have hs : r.sequence.toNat < 256 ^ 8 := r.sequence.toNat_lt
    simp only [decode, encode_eq_strings, ↓readFull_append_bind, ↓readFixed_append_bind, length_putLE,
      length_singleton, ↓readString_put_bind (w := 2) he.site, ↓readString_put_bind (w := 2) he.hostID,
      ↓readString_put_bind (w := 2) he.sessionID, ↓readString_put_bind (w := 1) he.stream,
      ↓readString_put_bind (w := 4) he.envelope, ↓readString_put_bind (w := 4) he.payload,
      he.payloadHash]
    simp [getLE_putLE_of_lt (unixNano_lt _), getLE_putLE_of_lt
      (expiryWord_lt _), int64_unixNano he.createdAt, expiryOf_expiryWord he.expiresAt, getLE]

theorem Record.Encodable.decode_encode (h : r.Encodable) : decode r.encode = some r :=
  decode_eq_some_iff.mpr ⟨h, [], (append_nil _).symm⟩

/-- What the body holds behind the site. -/
def Record.behindSite (r : Record) : Bytes :=
  put16 r.hostID ++ (put16 r.sessionID ++ (UInt8.ofNat r.stream.length :: (r.stream ++
    (r.payloadHash.toList ++ (put32 r.envelope ++ put32 r.payload)))))

/-- The fields behind the site fit their lengths, and they stand behind as much of the site as its
length says: that is so of a site whose length fits. -/
structure Record.Readable (r : Record) : Prop where
  hostID : r.hostID.length < 2 ^ 16
  sessionID : r.sessionID.length < 2 ^ 16
  stream : r.stream.length < 2 ^ 8
  envelope : r.envelope.length < 2 ^ 32
  payload : r.payload.length < 2 ^ 32
  payloadHash : sha256 r.payload = r.payloadHash
  site : r.behindSite <+: r.site.drop (r.site.length % 2 ^ 16) ++ r.behindSite

theorem Record.readable_of_site (hsite : r.site.length < 2 ^ 16) (hhost : r.hostID.length < 2 ^ 16)
    (hsession : r.sessionID.length < 2 ^ 16) (hstream : r.stream.length < 2 ^ 8)
    (henvelope : r.envelope.length < 2 ^ 32) (hpayload : r.payload.length < 2 ^ 32)
    (hhash : sha256 r.payload = r.payloadHash) : r.Readable :=
  ⟨hhost, hsession, hstream, henvelope, hpayload, hhash, by
    rw [Nat.mod_eq_of_lt hsite, drop_length]
    exact prefix_rfl⟩

/-- **A body is read back exactly when it is readable**: to the record, but for its site and for
instants that no word holds. -/
theorem decode_encode_iff : (∃ r', decode r.encode = some r' ∧
      r' = { r with site := r'.site, createdAt := r'.createdAt, expiresAt := r'.expiresAt }) ↔
    r.Readable := by
  constructor
  · rintro ⟨r', hdecode, hsame⟩
    obtain ⟨he, rest, heq⟩ := decode_eq_some_iff.mp hdecode
    rw [hsame] at he heq
    refine ⟨he.hostID, he.sessionID, he.stream, he.envelope, he.payload, he.payloadHash, rest, ?_⟩
    simp only [Record.encode, put16, cons_append, append_assoc, cons.injEq, append_cancel_left_eq,
      true_and] at heq
    have hcreated := append_inj_right heq (by simp)
    have hexpires := append_inj_right hcreated (by simp)
    obtain ⟨hlength, hsite⟩ := append_inj hexpires (by simp)
    have hmod : r.site.length % 2 ^ 16 = r'.site.length := by
      have hword := congrArg getLE hlength
      rwa [getLE_putLE, getLE_putLE_of_lt he.site] at hword
    have hdrop := congrArg (drop r'.site.length) hsite
    rw [drop_append_of_le_length (hmod ▸ Nat.mod_le _ _)] at hdrop
    rw [hmod, Record.behindSite]
    simpa [put16] using hdrop.symm
  · intro h
    obtain ⟨rest, hrest⟩ := h.site
    have hle : r.site.length % 2 ^ 16 ≤ r.site.length := Nat.mod_le _ _
    have hlen : (r.site.take (r.site.length % 2 ^ 16)).length = r.site.length % 2 ^ 16 := by
      rw [length_take, Nat.min_eq_left hle]
    have hword : putLE 2 (r.site.length % 2 ^ 16) = putLE 2 r.site.length := by
      have hput := putLE_getLE (putLE 2 r.site.length)
      rwa [getLE_putLE] at hput
    refine ⟨{ r with
      site := r.site.take (r.site.length % 2 ^ 16)
      createdAt := int64 (unixNano r.createdAt)
      expiresAt := expiryOf (expiryWord r.expiresAt) }, decode_eq_some_iff.mpr ⟨⟨?_, h.hostID, h.sessionID,
        h.stream, h.envelope, h.payload, h.payloadHash, fitsInt64_int64 (unixNano_lt _),
        expiryOf_fits (expiryWord_lt _)⟩, rest, ?_⟩, rfl⟩
    · rw [hlen]
      exact Nat.mod_lt _ (by decide)
    have hsplit : r.site ++ r.behindSite =
        r.site.take (r.site.length % 2 ^ 16) ++ (r.behindSite ++ rest) := by
      rw [hrest, ← append_assoc, take_append_drop]
    have hbody : ∀ x : Record, x.encode = bodyVersion :: (x.id.toList ++ (x.priority ::
        (putLE 8 x.sequence.toNat ++ (putLE 8 (unixNano x.createdAt) ++ (putLE 8 (expiryWord x.expiresAt) ++
        (putLE 2 x.site.length ++ (x.site ++ x.behindSite))))))) := by
      intro x
      simp [Record.encode, Record.behindSite, put16]
    rw [hbody, hbody, hsplit]
    simp only [hlen, hword, unixNano_int64 (unixNano_lt _), expiryWord_expiryOf (expiryWord_lt _),
      cons_append, append_assoc]
    rfl

/-- A record read from a body takes no more room than the body. -/
theorem bodySize_le_of_decode (h : decode body = some r) : r.bodySize ≤ body.length := by
  obtain ⟨-, rest, rfl⟩ := decode_eq_some_iff.mp h
  simp [Record.length_encode]

/-- The identifier survives whatever the other fields do to the encoding. -/
theorem id_of_decode_encode {r' : Record} (h : decode r.encode = some r') : r'.id = r.id := by
  obtain ⟨-, rest, hrest⟩ := decode_eq_some_iff.mp h
  have hr := encode_eq_strings r []
  rw [append_nil, hrest, encode_eq_strings] at hr
  have htail := append_cancel_left hr
  exact List.Vector.toList_injective (append_inj_left htail (by simp))

/-! ## Lengths that wrap -/

theorem readString_wrapped_bind {v : Bytes} (h : v.length % 256 ^ w = 0)
    {f : Bytes × Bytes → Option Record} :
    (readString w (putLE w v.length ++ rest) >>= f) = f ([], rest) := by
  simp only [readString, Option.bind_eq_bind, readFull_append _ (length_putLE w v.length),
    Option.bind_some, getLE_putLE, h]
  rfl

theorem readString_short (h : n < 256 ^ w) (hn : rest.length < n) :
    readString w (putLE w n ++ rest) = none := by
  simp [readString, readFull_append _ (length_putLE w n), getLE_putLE_of_lt h, readFull_of_lt hn]

/-- Thirty-two letters read as a hash. -/
def lettersHash : List.Vector UInt8 32 := ⟨replicate 32 97, length_replicate⟩

/-- A session of sixty-four thousand letters is written behind the length zero, so that
`decode` takes its letters for the fields behind it and runs out of bytes. -/
theorem decode_overlong_session {y : Bytes} (hsite : r.site.length < 256 ^ 2)
    (hhost : r.hostID.length < 256 ^ 2) (hlen : r.sessionID.length % 256 ^ 2 = 0)
    (hsession : r.sessionID = putLE 1 97 ++ (replicate 97 97 ++ (lettersHash.toList ++
      (putLE 4 1633771873 ++ y)))) (hsmall : r.bodySize < 1633771873) : decode r.encode = none := by
  have hbody := encode_eq_strings r []
  rw [append_nil] at hbody
  have hbound := r.length_encode
  rw [hbody] at hbound
  rw [hsession] at hbound
  simp only [length_append] at hbound
  simp only [decode, hbody, ↓readFull_append_bind, ↓readFixed_append_bind, length_putLE,
    length_singleton, ↓readString_put_bind hsite, ↓readString_put_bind hhost,
    ↓readString_wrapped_bind hlen]
  simp only [hsession, append_assoc]
  rw [show putLE 1 97 = putLE 1 (replicate 97 (97 : UInt8)).length by simp,
    readString_put_bind (by decide), readFixed_append_bind,
    readString_short (by decide) (by simp only [length_append]; omega)]
  rfl

end Flotestro.RelaySpool
