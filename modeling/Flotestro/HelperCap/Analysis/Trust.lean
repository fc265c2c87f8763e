import Flotestro.Library.Runs
import Mathlib.Data.List.Induction
import Flotestro.Library.Maps
import Flotestro.HelperCap.Interface.TrustRuns

/-!
# Runs of trust bundles

One accepted bundle leaves its own keys in files named after them and takes the files named
after the other trusted keys away.  In a directory whose key files are named after their keys
this makes the keyring the key set of the bundle, and leaves the directory in that form.
-/

set_option autoImplicit false

namespace Flotestro.HelperCap

open Library List

variable {k : KeyPrimitives} {t : TrustStore}

/-! ## Files by name -/

theorem keyPath_injective : Function.Injective keyPath := by
  intro a b h
  exact Subtype.ext (append_cancel_right h)

/-- The file an accepted bundle writes for a key. -/
def writtenFile (k : KeyPrimitives) (key : Text) : KeyFile :=
  ⟨false, 0, 0o644, k.encodePublicKeyPEM key⟩

theorem readKey_writtenFile (key : Text) : readKey k t (writtenFile k key) = some key := by
  have hmode : openMode 0o644 = false := by decide
  simp [readKey, writtenFile, hmode, k.parse_encode]

theorem lookup_writeKey (files : AList fun _ : Bytes => KeyFile) (id key : Text) (name : Bytes) :
    (writeKey k files id key).lookup name =
      if name = keyPath id then
        some (match files.lookup name with
          | some f => if f.content = k.encodePublicKeyPEM key then f else writtenFile k key
          | none => writtenFile k key)
      else files.lookup name := by
  unfold writeKey
  by_cases hname : name = keyPath id
  · subst hname
    cases hf : files.lookup (keyPath id) with
    | none => simp [writtenFile]
    | some f =>
      by_cases hc : f.content = k.encodePublicKeyPEM key
      · simp [hc, hf]
      · simp [hc, writtenFile]
  · simp only [hname, if_false]
    split
    · split
      · rfl
      · rw [lookup_insert_ite, if_neg hname]
    · rw [lookup_insert_ite, if_neg hname]

/-- What a file of the directory is after keys of different names were written: named
after one of them and holding it, found so or new, or untouched. -/
theorem lookup_foldl_writeKey (l : List (Sigma fun _ : Text => Text))
    (hnodup : (l.map Sigma.fst).Nodup) (files : AList fun _ : Bytes => KeyFile) (name : Bytes) :
    (∃ e ∈ l, name = keyPath e.1 ∧ ∃ f,
        (l.foldl (fun files e => writeKey k files e.1 e.2) files).lookup name = some f ∧
        f.content = k.encodePublicKeyPEM e.2 ∧
        (files.lookup name = some f ∨ f = writtenFile k e.2)) ∨ ((∀ e ∈ l, name ≠ keyPath e.1) ∧
        (l.foldl (fun files e => writeKey k files e.1 e.2) files).lookup name =
          files.lookup name) := by
  induction l generalizing files with
  | nil => exact .inr ⟨by simp, rfl⟩
  | cons e l ih =>
    obtain ⟨hfresh, hrest⟩ := nodup_cons.mp hnodup
    rw [foldl_cons]
    rcases ih hrest (writeKey k files e.1 e.2) with ⟨e', he', hname, f, hf, hcontent, hfrom⟩ | ⟨hno, hsame⟩
    · -- the key is written further on, under another name
      have hother : name ≠ keyPath e.1 := by
        intro hname'
        have heq : e'.1 = e.1 := keyPath_injective (hname.symm.trans hname')
        exact hfresh (heq ▸ mem_map.mpr ⟨e', he', rfl⟩)
      rw [lookup_writeKey, if_neg hother] at hfrom
      exact .inl ⟨e', mem_cons_of_mem _ he', hname, f, hf, hcontent, hfrom⟩
    · by_cases hname : name = keyPath e.1
      · refine .inl ⟨e, mem_cons_self, hname, ?_⟩
        rw [hsame, lookup_writeKey, if_pos hname]
        cases hf : files.lookup name with
        | none => exact ⟨_, rfl, rfl, .inr rfl⟩
        | some f =>
          by_cases hc : f.content = k.encodePublicKeyPEM e.2
          · exact ⟨f, by simp [hc], hc, .inl rfl⟩
          · exact ⟨writtenFile k e.2, by simp [hc], rfl, .inr rfl⟩
      · refine .inr ⟨?_, ?_⟩
        · intro e' he'
          rcases mem_cons.mp he' with rfl | he'
          · exact hname
          · exact hno e' he'
        · rw [hsame, lookup_writeKey, if_neg hname]

theorem lookup_writeKeys (files : AList fun _ : Bytes => KeyFile) (keys : Keyring) (name : Bytes) :
    (∃ id key, keys.lookup id = some key ∧ name = keyPath id ∧ ∃ f,
        (writeKeys k files keys).lookup name = some f ∧ f.content = k.encodePublicKeyPEM key ∧
        (files.lookup name = some f ∨ f = writtenFile k key)) ∨
      ((∀ id key, keys.lookup id = some key → name ≠ keyPath id) ∧
        (writeKeys k files keys).lookup name = files.lookup name) := by
  rcases lookup_foldl_writeKey keys.entries keys.nodupKeys files name with
    ⟨e, he, hname, hf⟩ | ⟨hno, hsame⟩
  · exact .inl ⟨e.1, e.2, AList.mem_lookup_iff.mpr he, hname, hf⟩
  · exact .inr ⟨fun id key hkey => hno ⟨id, key⟩ (AList.mem_lookup_iff.mp hkey), hsame⟩

variable {s : TrustState} {current keys : Keyring} {bundle : HelperTrustBundle}

theorem lookup_removeKeys {files : AList fun _ : Bytes => KeyFile} {name : Bytes} {f : KeyFile} :
    (removeKeys files current keys).lookup name = some f ↔ files.lookup name = some f ∧
        ∀ id ∈ current.ids, name = keyPath id → (keys.lookup id).isSome = true := by
  unfold removeKeys
  induction current.ids generalizing files with
  | nil => simp
  | cons id ids ih =>
    rw [foldl_cons, ih]
    by_cases hkept : (keys.lookup id).isSome = true
    · simp [hkept]
    · by_cases hname : name = keyPath id
      · subst hname
        simp [hkept]
      · simp [hkept, hname]

/-! ## The keyring -/

theorem mem_loadKeys_iff {dir : TrustDir} {key : Text} :
    key ∈ loadKeys k t dir ↔ ∃ name file, dir.files.lookup name = some file ∧ pubSuffix <:+ name ∧
      readKey k t file = some key := by
  unfold loadKeys
  rw [mem_filterMap]
  constructor
  · rintro ⟨⟨name, file⟩, he, hkey⟩
    obtain ⟨hsuffix, hkey⟩ := of_then hkey nofun
    exact ⟨name, file, AList.mem_lookup_iff.mpr he, by simpa using hsuffix, hkey⟩
  · rintro ⟨name, file, hf, hsuffix, hkey⟩
    refine ⟨⟨name, file⟩, AList.mem_lookup_iff.mp hf, ?_⟩
    have : pubSuffix.isSuffixOf name = true := by simpa using hsuffix
    simp [this, hkey]

theorem lookup_foldl_add (l : List Text) (ring : Keyring)
    (hring : ∀ id key, ring.lookup id = some key → k.keyID key = id) (id key : Text) :
    (l.foldl (Keyring.add k) ring).lookup id = some key ↔
      (key ∈ l ∧ k.keyID key = id) ∨ ring.lookup id = some key := by
  induction l generalizing ring with
  | nil => simp
  | cons a l ih =>
    have hring' : ∀ id key, (Keyring.add k ring a).lookup id = some key → k.keyID key = id := by
      intro id key h
      rw [Keyring.add, lookup_insert_ite] at h
      split at h
      · next hid => rw [← Option.some.inj h, hid]
      · exact hring id key h
    rw [foldl_cons, ih _ hring', Keyring.add]
    by_cases hid : id = k.keyID a
    · subst hid
      have hold : ring.lookup (k.keyID a) = some key → key = a := fun h =>
        k.keyID_injective (hring _ _ h)
      by_cases hkey : key = a
      · simp [hkey]
      · simp [hkey, Ne.symm hkey, mt hold hkey]
    · have hother : ¬(key = a ∧ k.keyID key = id) := fun h => hid (h.1 ▸ h.2.symm)
      simp [hid, or_and_right, hother]

theorem keyring_lookup {dir : TrustDir} {ring : Keyring} (hdir : s.dir = some dir)
    (h : t.keyring k s = .ok ring) (id key : Text) :
    ring.lookup id = some key ↔ key ∈ loadKeys k t dir ∧ k.keyID key = id := by
  simp only [TrustStore.keyring, hdir] at h
  split at h
  · cases h
  split at h
  · cases h
  · cases h
    rw [lookup_foldl_add _ _ (by simp)]
    simp

theorem checkKeys_eq {l : List HelperTrustKey} {ring : Keyring} (h : checkKeys k ring l = .ok keys) :
    keys = (l.map HelperTrustKey.publicKey).foldl (Keyring.add k) ring := by
  induction l generalizing ring with
  | nil => simpa [checkKeys, eq_comm] using h
  | cons a l ih =>
    obtain ⟨-, h⟩ := of_else h nofun
    obtain ⟨hname, h⟩ := of_else h nofun
    rw [ih h, map_cons, foldl_cons, Keyring.add, not_not.mp hname]

theorem checkBundle_lookup (h : checkBundle k bundle = .ok keys) (id key : Text) :
    keys.lookup id = some key ↔ key ∈ bundleKeys bundle ∧ k.keyID key = id := by
  obtain ⟨-, h⟩ := of_else h nofun
  split at h
  · cases h
  · split at h
    · cases h
    · rw [checkKeys_eq h, lookup_foldl_add _ _ (by simp)]
      simp [bundleKeys]

theorem signerOf_ok {host : Bytes} {signer : Text}
    (h : signerOf k t current keys host bundle = .ok signer) (hhost : host ≠ []) :
    current.entries.isEmpty = false := by
  by_contra hempty
  have hempty' : current.entries.isEmpty = true := by simpa using hempty
  simp [signerOf, hempty', hhost] at h

theorem checkOrder_ok (h : checkOrder s current keys bundle = .ok ()) :
    acceptedIssued s ≤ bundle.issuedUnix ∧ (acceptedIssued s = bundle.issuedUnix →
        ∀ id ∈ current.ids, (keys.lookup id).isSome = true) := by
  obtain ⟨hlt, h⟩ := of_else h nofun
  obtain ⟨hdrop, h⟩ := of_else h nofun
  refine ⟨Int64.not_lt.mp hlt, ?_⟩
  intro heq
  have hall : current.ids.all (fun id => (keys.lookup id).isSome) = true := by
    by_contra hno
    exact hdrop (by simp [heq, hno])
  exact all_eq_true.mp hall

/-- Everything an accepted bundle was held to, and what it leaves. -/
theorem apply_ok {s' : TrustState} (h : t.apply k s bundle = .ok s') :
    ∃ keys current, checkBundle k bundle = .ok keys ∧ t.keyring k s = .ok current ∧
      (hostID s ≠ [] → hostID s = bundle.hostId.1) ∧ acceptedIssued s ≤ bundle.issuedUnix ∧
      (acceptedIssued s = bundle.issuedUnix → ∀ id ∈ current.ids, (keys.lookup id).isSome = true) ∧
      s' = s.take k current keys bundle := by
  obtain ⟨keys, hkeys, h⟩ := bind_eq_ok.mp h
  obtain ⟨current, hcurrent, h⟩ := bind_eq_ok.mp h
  obtain ⟨signer, hsigner, h⟩ := bind_eq_ok.mp h
  obtain ⟨-, h⟩ := of_else h nofun
  obtain ⟨hhost, h⟩ := of_else h nofun
  obtain ⟨_, horder, h⟩ := bind_eq_ok.mp h
  obtain ⟨hissued, hadds⟩ := checkOrder_ok horder
  refine ⟨keys, current, hkeys, hcurrent, ?_, hissued, hadds, (Except.ok.inj h).symm⟩
  intro hset
  simpa [signerOf_ok hsigner hset] using hhost

/-! ## The directory after a bundle -/

section

variable {s : TrustState} {current keys : Keyring} {bundle : HelperTrustBundle}

/-- A file of the directory after a bundle holds a key of the bundle, found so or new,
or was there before under a name that is not of the bundle. -/
theorem lookup_take {name : Bytes} {file : KeyFile}
    (h : (removeKeys (writeKeys k s.madeDir.files keys) current keys).lookup name = some file) :
    (∃ id key, keys.lookup id = some key ∧ name = keyPath id ∧
        file.content = k.encodePublicKeyPEM key ∧
        (s.madeDir.files.lookup name = some file ∨ file = writtenFile k key)) ∨
      (s.madeDir.files.lookup name = some file ∧
        ∀ id ∈ current.ids, name = keyPath id → (keys.lookup id).isSome = true) := by
  obtain ⟨hwritten, hkept⟩ := lookup_removeKeys.mp h
  rcases lookup_writeKeys s.madeDir.files keys name with
    ⟨id, key, hkey, hname, f, hf, hcontent, hfrom⟩ | ⟨-, hsame⟩
  · obtain rfl : f = file := Option.mem_unique hf hwritten
    exact .inl ⟨id, key, hkey, hname, hcontent, hfrom⟩
  · exact .inr ⟨hsame ▸ hwritten, hkept⟩

theorem lookup_madeDir {name : Bytes} {file : KeyFile} (h : s.madeDir.files.lookup name = some file) :
    ∃ dir, s.dir = some dir ∧ dir.files.lookup name = some file := by
  cases hdir : s.dir with
  | none => simp [TrustState.madeDir, hdir] at h
  | some dir =>
    simp only [TrustState.madeDir, hdir] at h
    exact ⟨dir, rfl, h⟩

theorem Tidy.madeDir_named (h : Tidy k t s) {name : Bytes} {file : KeyFile} {key : Text}
    (hf : s.madeDir.files.lookup name = some file) (hsuffix : pubSuffix <:+ name)
    (hread : readKey k t file = some key) : name = keyPath (k.keyID key) := by
  obtain ⟨dir, hdir, hf⟩ := lookup_madeDir hf
  exact h.named dir hdir name file key hf hsuffix hread

theorem Tidy.madeDir_loads (h : Tidy k t s) {file : KeyFile} {key : Text}
    (hf : s.madeDir.files.lookup (keyPath (k.keyID key)) = some file)
    (hcontent : file.content = k.encodePublicKeyPEM key) : readKey k t file = some key := by
  obtain ⟨dir, hdir, hf⟩ := lookup_madeDir hf
  exact h.loads dir hdir file key hf hcontent

/-- A file that holds the key it is named after tells it. -/
theorem eq_of_encode {a b : Text} (h : k.encodePublicKeyPEM a = k.encodePublicKeyPEM b) : a = b := by
  have := congrArg k.parsePublicKeyPEM h
  rw [k.parse_encode, k.parse_encode] at this
  exact Option.some.inj this

theorem Tidy.take (h : Tidy k t s) (hkeys : ∀ id key, keys.lookup id = some key → k.keyID key = id) :
    Tidy k t (s.take k current keys bundle) := by
  constructor
  · intro dir hdir name file key hf hsuffix hread
    cases hdir
    rcases lookup_take hf with ⟨id, key', hkey, hname, hcontent, hfrom | rfl⟩ | ⟨hf, -⟩
    · exact h.madeDir_named hfrom hsuffix hread
    · rw [readKey_writtenFile, Option.some.injEq] at hread
      rw [hname, ← hread, hkeys id key' hkey]
    · exact h.madeDir_named hf hsuffix hread
  · intro dir hdir file key hf hcontent
    cases hdir
    rcases lookup_take hf with ⟨id, key', hkey, hname, hcontent', hfrom | rfl⟩ | ⟨hf, -⟩
    · exact h.madeDir_loads hfrom hcontent
    · rw [readKey_writtenFile, eq_of_encode (hcontent'.symm.trans hcontent)]
    · exact h.madeDir_loads hf hcontent

/-- The keys that load after a bundle are the keys of the bundle. -/
theorem mem_loadKeys_take (bundle : HelperTrustBundle) (h : Tidy k t s) (hcurrent : t.keyring k s = .ok current)
    (hkeys : ∀ id key, keys.lookup id = some key → k.keyID key = id) {dir : TrustDir}
    (hdir : (s.take k current keys bundle).dir = some dir) (key : Text) :
    key ∈ loadKeys k t dir ↔ keys.lookup (k.keyID key) = some key := by
  have htidy : Tidy k t (s.take k current keys bundle) := h.take hkeys
  rw [mem_loadKeys_iff]
  constructor
  · rintro ⟨name, file, hf, hsuffix, hread⟩
    obtain rfl : name = keyPath (k.keyID key) := htidy.named dir hdir name file key hf hsuffix hread
    cases hdir
    rcases lookup_take hf with ⟨id, key', hkey, hname, hcontent, -⟩ | ⟨hold, hkept⟩
    · -- a file of the bundle: the identifier tells the key
      have hid : k.keyID key = id := keyPath_injective hname
      have heq : key' = key := k.keyID_injective ((hkeys id key' hkey).trans hid.symm)
      rw [hid, hkey, heq]
    · -- a file from before: its key was trusted, so the bundle carries it
      have htrusted : current.lookup (k.keyID key) = some key := by
        obtain ⟨d, hsdir, hold⟩ := lookup_madeDir hold
        rw [keyring_lookup hsdir hcurrent]
        exact ⟨mem_loadKeys_iff.mpr ⟨_, file, hold, hsuffix, hread⟩, rfl⟩
      have hid : k.keyID key ∈ current.ids :=
        mem_map.mpr ⟨⟨_, key⟩, AList.mem_lookup_iff.mp htrusted, rfl⟩
      obtain ⟨key', hkey'⟩ := Option.isSome_iff_exists.mp (hkept _ hid rfl)
      rw [hkey', k.keyID_injective (hkeys _ _ hkey')]
  · intro hkey
    have hlookup : ∃ file, dir.files.lookup (keyPath (k.keyID key)) = some file ∧
        file.content = k.encodePublicKeyPEM key := by
      cases hdir
      rcases lookup_writeKeys s.madeDir.files keys (keyPath (k.keyID key)) with
        ⟨id, key', hkey', hname, f, hf, hcontent, -⟩ | ⟨hno, -⟩
      · have hid : k.keyID key = id := keyPath_injective hname
        subst hid
        obtain rfl : key' = key := Option.mem_unique hkey' hkey
        refine ⟨f, lookup_removeKeys.mpr ⟨hf, ?_⟩, hcontent⟩
        intro id _ hname'
        rw [← keyPath_injective hname', hkey]
        rfl
      · exact absurd rfl (hno _ _ hkey)
    obtain ⟨file, hf, hcontent⟩ := hlookup
    exact ⟨_, file, hf, suffix_append _ _, htidy.loads dir hdir file key hf hcontent⟩

end

section

variable {s s' : TrustState} {bundle : HelperTrustBundle}

theorem keyring_take_ok {current : Keyring} (keys : Keyring) (bundle : HelperTrustBundle) (h : t.keyring k s = .ok current) :
    ∃ ring, t.keyring k (s.take k current keys bundle) = .ok ring := by
  cases hdir : s.dir with
  | none =>
    have hmode : openMode 0o755 = false := by decide
    simp [TrustStore.keyring, TrustState.take, TrustState.madeDir, hdir, hmode]
  | some dir =>
    simp only [TrustStore.keyring, hdir] at h
    simp only [TrustStore.keyring, TrustState.take, TrustState.madeDir, hdir, Option.getD_some]
    obtain ⟨huid, h⟩ := of_else h nofun
    obtain ⟨hmode, h⟩ := of_else h nofun
    exact ⟨_, by rw [if_neg huid, if_neg hmode]⟩

theorem apply_keyring (h : Tidy k t s) (hok : t.apply k s bundle = .ok s') :
    Tidy k t s' ∧ ∃ ring, t.keyring k s' = .ok ring ∧
      ∀ id key, ring.lookup id = some key ↔ key ∈ bundleKeys bundle ∧ k.keyID key = id := by
  obtain ⟨keys, current, hkeys, hcurrent, -, -, -, rfl⟩ := apply_ok hok
  have hlookup := checkBundle_lookup hkeys
  have hnamed : ∀ id key, keys.lookup id = some key → k.keyID key = id :=
    fun id key hkey => ((hlookup id key).mp hkey).2
  refine ⟨h.take hnamed, ?_⟩
  obtain ⟨ring, hring⟩ := keyring_take_ok keys bundle hcurrent
  refine ⟨ring, hring, ?_⟩
  intro id key
  rw [keyring_lookup rfl hring, mem_loadKeys_take bundle h hcurrent hnamed rfl, hlookup]
  simp

theorem trusts_of_apply (h : Tidy k t s) (hok : t.apply k s bundle = .ok s') (key : Text) :
    Trusts k t s' key ↔ key ∈ bundleKeys bundle := by
  obtain ⟨-, ring, hring, hlookup⟩ := apply_keyring h hok
  constructor
  · rintro ⟨ring', hring', hkey⟩
    obtain rfl : ring = ring' := Except.ok.inj (hring.symm.trans hring')
    exact ((hlookup _ _).mp hkey).1
  · intro hkey
    exact ⟨ring, hring, (hlookup _ _).mpr ⟨hkey, rfl⟩⟩

theorem acceptedIssued_of_apply (hok : t.apply k s bundle = .ok s') :
    acceptedIssued s' = bundle.issuedUnix := by
  obtain ⟨keys, current, -, -, -, -, -, rfl⟩ := apply_ok hok
  rfl

/-- A bundle of the accepted second carries every trusted key. -/
theorem mem_bundleKeys_of_same_second (hok : t.apply k s bundle = .ok s')
    (hsecond : acceptedIssued s = bundle.issuedUnix) {key : Text} (hkey : Trusts k t s key) :
    key ∈ bundleKeys bundle := by
  obtain ⟨keys, current, hkeys, hcurrent, -, -, hadds, -⟩ := apply_ok hok
  obtain ⟨ring, hring, hlookup⟩ := hkey
  obtain rfl : current = ring := Except.ok.inj (hcurrent.symm.trans hring)
  have hid : k.keyID key ∈ current.ids :=
    mem_map.mpr ⟨⟨_, key⟩, AList.mem_lookup_iff.mp hlookup, rfl⟩
  obtain ⟨key', hkey'⟩ := Option.isSome_iff_exists.mp (hadds hsecond _ hid)
  obtain ⟨hmem, hname⟩ := (checkBundle_lookup hkeys _ _).mp hkey'
  rwa [k.keyID_injective hname] at hmem

theorem hostID_applied (hset : hostID s ≠ []) : hostID (t.applied k s bundle) = hostID s := by
  unfold TrustStore.applied
  split
  next s' hok =>
    obtain ⟨keys, current, -, -, hhost, -, -, rfl⟩ := apply_ok hok
    have hfile : (s.take k current keys bundle).hostFile = s.hostFile := if_pos (hhost hset)
    rw [hostID, hfile, hostID]
  · rfl

end

theorem applyAll_concat (s : TrustState) (pre : List HelperTrustBundle) (b : HelperTrustBundle) :
    t.applyAll k s (pre ++ [b]) = t.applied k (t.applyAll k s pre) b := by
  simp [TrustStore.applyAll]

theorem hostID_applyAll (bundles : List HelperTrustBundle) (hset : hostID s ≠ []) :
    hostID (t.applyAll k s bundles) = hostID s := by
  induction bundles generalizing s with
  | nil => rfl
  | cons b bundles ih =>
    have hstep : hostID (t.applied k s b) = hostID s := hostID_applied hset
    have hrest : hostID (t.applyAll k (t.applied k s b) bundles) = hostID (t.applied k s b) :=
      ih (hstep ▸ hset)
    rw [← hstep, ← hrest]
    rfl

/-- What a run has left behind: where the trusted keys come from, and the bundles
accepted so far below the note. -/
structure RunInv (k : KeyPrimitives) (t : TrustStore) (s : TrustState)
    (pre : List HelperTrustBundle) : Prop where
  tidy : Tidy k t (t.applyAll k s pre)
  known : ∀ key, Trusts k t (t.applyAll k s pre) key →
    Trusts k t s key ∨ ∃ c ∈ pre, key ∈ bundleKeys c
  past : ∀ pre' b mid, pre = pre' ++ b :: mid → Accepted k t s pre' b →
    b.issuedUnix ≤ acceptedIssued (t.applyAll k s pre) ∧
      (b.issuedUnix = acceptedIssued (t.applyAll k s pre) →
        ∀ key ∈ bundleKeys b, Trusts k t (t.applyAll k s pre) key)

/-- A position in a run that was just extended is the new end or an old position. -/
theorem concat_eq_append_cons {α : Type} {l l' mid : List α} {a b : α}
    (h : l ++ [a] = l' ++ b :: mid) :
    (mid = [] ∧ b = a ∧ l' = l) ∨ ∃ mid', mid = mid' ++ [a] ∧ l = l' ++ b :: mid' := by
  rcases eq_nil_or_concat mid with rfl | ⟨mid', c, rfl⟩
  · obtain ⟨rfl, hab⟩ := append_inj' h rfl
    exact .inl ⟨rfl, (singleton_inj.mp hab).symm, rfl⟩
  · rw [concat_eq_append, ← cons_append, ← append_assoc] at h
    obtain ⟨rfl, hac⟩ := append_inj' h rfl
    exact .inr ⟨mid', by rw [concat_eq_append, singleton_inj.mp hac], rfl⟩

theorem ordered_of_past {b b' : HelperTrustBundle} {s' : TrustState}
    (h : b.issuedUnix ≤ acceptedIssued s ∧
      (b.issuedUnix = acceptedIssued s → ∀ key ∈ bundleKeys b, Trusts k t s key))
    (hok : t.apply k s b' = .ok s') :
    b.issuedUnix ≤ b'.issuedUnix ∧ (b.issuedUnix = b'.issuedUnix → bundleKeys b ⊆ bundleKeys b') := by
  obtain ⟨hpast, hadded⟩ := h
  obtain ⟨_, _, _, _, _, hle, _⟩ := apply_ok hok
  refine ⟨Int64.le_trans hpast hle, ?_⟩
  intro heq key hkey
  -- one second: the note in between is of the same second
  have hnote : acceptedIssued s = b'.issuedUnix := Int64.le_antisymm hle (heq ▸ hpast)
  exact mem_bundleKeys_of_same_second hok hnote (hadded (heq.trans hnote.symm) key hkey)

theorem RunInv.step {pre : List HelperTrustBundle} (h : RunInv k t s pre) (b : HelperTrustBundle) :
    RunInv k t s (pre ++ [b]) := by
  cases hok : t.apply k (t.applyAll k s pre) b with
  | error e =>
    -- refused: nothing changed, and the bundle is not among the accepted ones
    have hsame : t.applyAll k s (pre ++ [b]) = t.applyAll k s pre := by
      rw [applyAll_concat, TrustStore.applied, hok]
    refine ⟨hsame ▸ h.tidy, ?_, ?_⟩
    · intro key hkey
      rw [hsame] at hkey
      rcases h.known key hkey with hstart | ⟨c, hc, hmem⟩
      · exact .inl hstart
      · exact .inr ⟨c, mem_append_left _ hc, hmem⟩
    · intro pre' b' mid hsplit haccepted
      rw [hsame]
      rcases concat_eq_append_cons hsplit with ⟨-, rfl, rfl⟩ | ⟨mid', -, hpre⟩
      · obtain ⟨s', hs'⟩ := haccepted
        rw [hok] at hs'
        cases hs'
      · exact h.past pre' b' mid' hpre haccepted
  | ok s' =>
    have hnext : t.applyAll k s (pre ++ [b]) = s' := by
      rw [applyAll_concat, TrustStore.applied, hok]
    have hissued : acceptedIssued s' = b.issuedUnix := acceptedIssued_of_apply hok
    refine ⟨hnext ▸ (apply_keyring h.tidy hok).1, ?_, ?_⟩
    · intro key hkey
      rw [hnext, trusts_of_apply h.tidy hok] at hkey
      exact .inr ⟨b, by simp, hkey⟩
    · intro pre' b' mid hsplit haccepted
      rw [hnext, hissued]
      rcases concat_eq_append_cons hsplit with ⟨-, rfl, rfl⟩ | ⟨mid', -, hpre⟩
      · exact ⟨Int64.le_refl _, fun _ key hkey => (trusts_of_apply h.tidy hok key).mpr hkey⟩
      obtain ⟨hle, hadded⟩ := ordered_of_past (h.past pre' b' mid' hpre haccepted) hok
      exact ⟨hle, fun heq key hkey => (trusts_of_apply h.tidy hok key).mpr (hadded heq hkey)⟩

theorem RunInv.run (h : Tidy k t s) (pre : List HelperTrustBundle) : RunInv k t s pre := by
  induction pre using List.reverseRecOn with
  | nil => exact ⟨h, fun key hkey => .inl hkey, by simp⟩
  | append_singleton pre b ih => exact ih.step b

theorem accepted_ordered (h : Tidy k t s) {pre mid : List HelperTrustBundle}
    {b b' : HelperTrustBundle} (hb : Accepted k t s pre b)
    (hb' : Accepted k t s (pre ++ b :: mid) b') :
    b.issuedUnix ≤ b'.issuedUnix ∧ (b.issuedUnix = b'.issuedUnix → bundleKeys b ⊆ bundleKeys b') := by
  obtain ⟨s', hok⟩ := hb'
  exact ordered_of_past ((RunInv.run h (pre ++ b :: mid)).past pre b mid rfl hb) hok

/-- In every run of bundles from a trust directory whose key files are named after their keys,
in which bundles of one second differ in new keys only, an accepted bundle leaves exactly its
own keys trusted, the identity once set stays, the accepted bundles are ordered by their moments
of issue, and a withdrawn key does not come back through a bundle issued no later. -/
theorem trust_kept_along_bundles (k : KeyPrimitives) (t : TrustStore) (s : TrustState)
    (bundles : List HelperTrustBundle) (htidy : Tidy k t s) (hapart : SecondsApart k t s bundles) :
    TrustKept k t s bundles where
  keyring := by
    intro pre b post _ s' hok
    exact (apply_keyring (RunInv.run htidy pre).tidy hok).2
  identity := by
    rintro pre post rfl hset
    rw [show t.applyAll k s (pre ++ post) = t.applyAll k (t.applyAll k s pre) post from
      foldl_append]
    exact hostID_applyAll post hset
  ordered := by
    intro pre b mid b' post _ hb hb'
    exact accepted_ordered htidy hb hb'
  withdrawn := by
    intro pre b mid b' post hsplit hb hb' hle key htrusted hno hcarried
    have heq : b.issuedUnix = b'.issuedUnix :=
      Int64.le_antisymm (accepted_ordered htidy hb hb').1 hle
    obtain ⟨hstart, hpre⟩ := hapart pre b mid b' post hsplit heq key hcarried hno
    rcases (RunInv.run htidy pre).known key htrusted with h | ⟨c, hc, hmem⟩
    · exact hstart h
    · exact hpre c hc hmem

/-! ## Runs by evaluation -/

/-- Of two bundles the later may come in the same second with keys the start did not know. -/
theorem secondsApart_pair {a b : HelperTrustBundle}
    (h : ∀ key ∈ bundleKeys b, key ∉ bundleKeys a → ¬ Trusts k t s key) : SecondsApart k t s [a, b] := by
  rintro (_ | ⟨c, _ | ⟨c', pre⟩⟩) x mid y post hsplit _ key hkey hno
  · obtain ⟨rfl, hrest⟩ := cons.inj hsplit
    cases mid with
    | nil =>
      obtain ⟨rfl, -⟩ := cons.inj hrest
      exact ⟨h key hkey hno, fun c hc => absurd hc not_mem_nil⟩
    | cons m mid => simp at hrest
  · simp at hsplit
  · simp at hsplit

/-- Whether the keyring holds a key, evaluated. -/
def trusts (k : KeyPrimitives) (t : TrustStore) (s : TrustState) (key : Text) : Bool :=
  match t.keyring k s with
  | .ok ring => decide (ring.lookup (k.keyID key) = some key)
  | .error _ => false

theorem trusts_iff {key : Text} : trusts k t s key = true ↔ Trusts k t s key := by
  unfold trusts Trusts
  cases t.keyring k s with
  | error e | ok ring => simp

/-- Whether a bundle is accepted, evaluated. -/
def accepts (k : KeyPrimitives) (t : TrustStore) (s : TrustState) (bundle : HelperTrustBundle) :
    Bool :=
  match t.apply k s bundle with
  | .ok _ => true
  | .error _ => false

theorem apply_of_accepts (h : accepts k t s bundle = true) :
    t.apply k s bundle = .ok (t.applied k s bundle) := by
  unfold accepts at h
  unfold TrustStore.applied
  cases hok : t.apply k s bundle with
  | error e => simp [hok] at h
  | ok s' => rfl

/-- Primitives for evaluation: a key is its own identifier and its own file, and every
signature verifies. -/
def plainKeys : KeyPrimitives where
  keyID := id
  keyID_injective := Function.injective_id
  keyFingerprint := id
  encodePublicKeyPEM := Subtype.val
  parsePublicKeyPEM b := if h : b.length < 2 ^ 63 then some ⟨b, h⟩ else none
  parse_encode key := dif_pos key.2
  verify _ _ _ := true

def keyOf (b : UInt8) : Text := ⟨replicate 32 b, by simp⟩

def bundleOf (keys : List UInt8) (h : keys.length < 2 ^ 63) (issued : Int64) : HelperTrustBundle where
  hostId := text "h"
  keys := ⟨keys.map fun b => ⟨keyOf b, keyOf b⟩, by simpa using h⟩
  issuedUnix := issued
  signedByKeyId := keyOf 1
  signature := ⟨replicate 64 0, by simp⟩

/-- A host that takes the first panel that asks, before its first bundle. -/
def tofuStore : TrustStore := ⟨true, true, some []⟩

def freshHost : TrustState := ⟨none, none, none⟩

/-- An enrolled host whose only key lies in a file of the name. -/
def hostWithFile (name : Bytes) : TrustState where
  dir := some ⟨0, 0o755, (∅ : AList fun _ : Bytes => KeyFile).insert name (writtenFile plainKeys (keyOf 1))⟩
  hostFile := some (ascii "h\n".toList)
  note := none

def hostWithOldFile : TrustState := hostWithFile (ascii "old.pub".toList)

theorem tidy_hostWithFile : Tidy plainKeys tofuStore (hostWithFile (keyPath (keyOf 1))) := by
  have hone : ∀ name file, ((∅ : AList fun _ : Bytes => KeyFile).insert (keyPath (keyOf 1))
      (writtenFile plainKeys (keyOf 1))).lookup name = some file →
      name = keyPath (keyOf 1) ∧ file = writtenFile plainKeys (keyOf 1) := by
    intro name file h
    by_cases hname : name = keyPath (keyOf 1)
    · subst hname
      rw [AList.lookup_insert, Option.some.injEq] at h
      exact ⟨rfl, h.symm⟩
    · rw [AList.lookup_insert_ne hname] at h
      cases h
  constructor
  · intro dir hdir name file key hf _ hread
    cases hdir
    obtain ⟨rfl, rfl⟩ := hone name file hf
    rw [readKey_writtenFile, Option.some.injEq] at hread
    rw [← hread]
    rfl
  · intro dir hdir file key hf _
    cases hdir
    obtain ⟨hname, rfl⟩ := hone _ file hf
    rw [readKey_writtenFile, keyPath_injective hname.symm]
    rfl

/-- A host that holds one key is given another, by a bundle of the same second. -/
theorem trust_kept_along_rotation : TrustKept plainKeys tofuStore (hostWithFile (keyPath (keyOf 1)))
      [bundleOf [1] (by decide) 5, bundleOf [1, 2] (by decide) 5] := by
  refine trust_kept_along_bundles plainKeys tofuStore _ _ tidy_hostWithFile (secondsApart_pair ?_)
  simp only [← trusts_iff]
  decide

/-- A key in a file of another name stays trusted when a bundle that does not carry it is
accepted; and a key withdrawn by a bundle comes back through another bundle of the same second,
which adds it and drops nothing. -/
theorem withdrawn_key_trusted_again :
    (∃ s', tofuStore.apply plainKeys hostWithOldFile (bundleOf [2] (by decide) 5) = .ok s' ∧
      Trusts plainKeys tofuStore s' (keyOf 1) ∧ keyOf 1 ∉ bundleKeys (bundleOf [2] (by decide) 5)) ∧
    (Accepted plainKeys tofuStore freshHost [bundleOf [1, 2] (by decide) 5] (bundleOf [1] (by decide) 6) ∧
      Accepted plainKeys tofuStore freshHost
        [bundleOf [1, 2] (by decide) 5, bundleOf [1] (by decide) 6] (bundleOf [1, 2] (by decide) 6) ∧
      Trusts plainKeys tofuStore
        (tofuStore.applyAll plainKeys freshHost [bundleOf [1, 2] (by decide) 5]) (keyOf 2) ∧
      keyOf 2 ∉ bundleKeys (bundleOf [1] (by decide) 6) ∧
      keyOf 2 ∈ bundleKeys (bundleOf [1, 2] (by decide) 6)) := by
  refine ⟨⟨_, apply_of_accepts (by decide), ?_, by decide⟩, ?_, ?_, ?_, ?_, ?_⟩
  · exact trusts_iff.mp (by decide)
  · exact ⟨_, apply_of_accepts (by decide)⟩
  · exact ⟨_, apply_of_accepts (by decide)⟩
  · exact trusts_iff.mp (by decide)
  · decide
  · decide

end Flotestro.HelperCap
