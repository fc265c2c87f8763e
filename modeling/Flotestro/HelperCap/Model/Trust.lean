import Mathlib.Data.List.AList
import Flotestro.Library.Space
import Flotestro.HelperCap.Model.Binding

/-!
# The trust store of a host

The keyring is whatever key files the trust directory holds: a file counts by its content, and
its name is looked at for the suffix only.  A bundle is applied by file names made from the key
identifiers, after it was held to the keyring, the identity of the host and a note of the
bundle accepted last.  The helper runs as root, and the operations on files succeed.
-/

set_option autoImplicit false

namespace Flotestro.HelperCap

open Library

/-- Keys, their names, their files and their signatures.  A key identifier is taken
as injective, and a key written to a file is read back. -/
structure KeyPrimitives where
  keyID : Text → Text
  keyID_injective : Function.Injective keyID
  keyFingerprint : Text → Text
  encodePublicKeyPEM : Text → Bytes
  parsePublicKeyPEM : Bytes → Option Text
  parse_encode : ∀ key, parsePublicKeyPEM (encodePublicKeyPEM key) = some key
  verify : Text → Bytes → Text → Bool

/-- A file of the trust directory; reading a link reads what it leads to. -/
structure KeyFile where
  isLink : Bool
  uid : Nat
  mode : Nat
  content : Bytes

/-- The trust directory, files by name. -/
structure TrustDir where
  uid : Nat
  mode : Nat
  files : AList fun _ : Bytes => KeyFile

/-- What the helper remembers about the bundle accepted last.
SOURCE: keyring.go:469-473 -/
structure AcceptedBundle where
  hostID : Text
  issuedUnix : Int64
  signedBy : Text

/-- The trust of a host: the directory, the file of the identity and the note; a note
that is missing or cannot be decoded is none. -/
structure TrustState where
  dir : Option TrustDir
  hostFile : Option Bytes
  note : Option AcceptedBundle

/-- How the store is set up: `pins` is none when the pin file cannot be used.
SOURCE: keyring.go:67-81 -/
structure TrustStore where
  requireRoot : Bool
  tofu : Bool
  pins : Option (List Text)

/-- A bundle is refused, or something could not be read. -/
inductive TrustError where
  | refused (refusal : Refusal)
  | failed (message : String)

abbrev Keyring := AList fun _ : Text => Text

variable (k : KeyPrimitives)

/-- SOURCE: keyring.go:27-33 -/
def Keyring.add (ring : Keyring) (key : Text) : Keyring :=
  ring.insert (k.keyID key) key

def Keyring.ids (ring : Keyring) : List Text := ring.entries.map Sigma.fst

/-- Somebody besides the owner may write. -/
def openMode (mode : Nat) : Bool := mode &&& 0o022 != 0

variable (t : TrustStore)

/-- SOURCE: keyring.go:260-281 -/
def readKey (file : KeyFile) : Option Text :=
  if file.isLink then none
  else if t.requireRoot && (file.uid != 0 || openMode file.mode) then none
  else k.parsePublicKeyPEM file.content

def pubSuffix : Bytes := ascii ".pub".toList

/-- The keys the files of the directory hold.  SOURCE: keyring.go:244-256 -/
def loadKeys (dir : TrustDir) : List Text :=
  dir.files.entries.filterMap fun e =>
    if pubSuffix.isSuffixOf e.1 then readKey k t e.2 else none

variable (s : TrustState)

/-- SOURCE: keyring.go:220-258 -/
def TrustStore.keyring :
    Except TrustError Keyring :=
  match s.dir with
  | none => .ok ∅
  | some dir =>
    if t.requireRoot && dir.uid != 0 then .error (.failed "the trust directory is not owned by root")
    else if t.requireRoot && openMode dir.mode then
      .error (.failed "the trust directory is writable by others")
    else .ok ((loadKeys k t dir).foldl (Keyring.add k) ∅)

/-- SOURCE: keyring.go:308-317 -/
def hostID : Bytes :=
  match s.hostFile with
  | none => []
  | some content => trimSpace content

/-- The moment of issue of the bundle accepted last; zero without a note.
SOURCE: keyring.go:481-497 -/
def acceptedIssued : Int64 :=
  match s.note with
  | none => 0
  | some note => note.issuedUnix

/-- The keys of a bundle one after another.  SOURCE: keyring.go:551-563 -/
def checkKeys (k : KeyPrimitives) (ring : Keyring) :
    List HelperTrustKey → Except TrustError Keyring
  | [] => .ok ring
  | key :: rest =>
    if key.publicKey.1.length ≠ 32 then
      .error (.refused ⟨.trustInvalid, .wording "a key of the bundle is not an Ed25519 public key"⟩)
    else if k.keyID key.publicKey ≠ key.keyId then
      .error (.refused ⟨.trustInvalid, .about "the key is named after another key" [key.keyId]⟩)
    else checkKeys k (ring.insert key.keyId key.publicKey) rest

/-- SOURCE: keyring.go:541-565 -/
def checkBundle (bundle : HelperTrustBundle) : Except TrustError Keyring :=
  if bundle.hostId = text "" then
    .error (.refused ⟨.trustInvalid, .wording "the bundle names no host"⟩)
  else if bundle.keys.1.isEmpty then
    .error (.refused ⟨.trustInvalid, .wording "the bundle carries no key"⟩)
  else if bundle.signature.1.length ≠ 64 then
    .error (.refused ⟨.trustInvalid, .wording "the bundle carries no signature"⟩)
  else checkKeys k ∅ bundle.keys.1

/-- The first bundle is held to the panel the operator named.
SOURCE: keyring.go:180-208 -/
def checkPin (signer : Text) : Except TrustError Unit :=
  match t.pins with
  | none => .error (.failed "the pins cannot be read")
  | some [] =>
    if t.tofu then .ok ()
    else .error (.refused ⟨.trustPin, .wording "this host enrolls only with a panel named in the pin file"⟩)
  | some pins =>
    if pins.contains (k.keyFingerprint signer) then .ok ()
    else .error (.refused ⟨.trustPin,
      .about "the first bundle is signed by a key the pin file does not name"
        [k.keyFingerprint signer]⟩)

/-- The key that has to have signed: one the helper trusts, or one of the bundle itself
on a host without a keyring and without an identity.  SOURCE: keyring.go:347-369 -/
def signerOf (current keys : Keyring) (currentHost : Bytes)
    (bundle : HelperTrustBundle) : Except TrustError Text :=
  let untrusted : Except TrustError Text := .error (.refused ⟨.trustUntrusted,
    .about "the bundle is signed by a key the helper does not trust" [bundle.signedByKeyId]⟩)
  if current.entries.isEmpty && currentHost != [] then
    .error (.refused ⟨.trustUntrusted, .wording "the host has an identity but no trusted key"⟩)
  else if current.entries.isEmpty then
    match keys.lookup bundle.signedByKeyId with
    | none => untrusted
    | some signer => do
      checkPin k t signer
      return signer
  else
    match current.lookup bundle.signedByKeyId with
    | none => untrusted
    | some signer => .ok signer

/-- A bundle older than the one accepted last is refused, and one of the same second
may only add keys.  SOURCE: keyring.go:394-421 -/
def checkOrder (current keys : Keyring) (bundle : HelperTrustBundle) :
    Except TrustError Unit :=
  if bundle.issuedUnix < acceptedIssued s then
    .error (.refused ⟨.trustStale, .wording "an older bundle would undo a key rotation"⟩)
  else if acceptedIssued s = bundle.issuedUnix &&
      !current.ids.all (fun id => (keys.lookup id).isSome) then
    .error (.refused ⟨.trustStale, .wording "within one second a bundle may only add keys"⟩)
  else .ok ()

/-- The name of the file of a key. -/
def keyPath (id : Text) : Bytes := id.1 ++ pubSuffix

/-- A file that holds the key already is left as it is.  SOURCE: keyring.go:427-440 -/
def writeKey (files : AList fun _ : Bytes => KeyFile) (id key : Text) :
    AList fun _ : Bytes => KeyFile :=
  let encoded := k.encodePublicKeyPEM key
  match files.lookup (keyPath id) with
  | some existing =>
    if existing.content = encoded then files
    else files.insert (keyPath id) ⟨false, 0, 0o644, encoded⟩
  | none => files.insert (keyPath id) ⟨false, 0, 0o644, encoded⟩

def writeKeys (files : AList fun _ : Bytes => KeyFile) (keys : Keyring) :
    AList fun _ : Bytes => KeyFile :=
  keys.entries.foldl (fun files e => writeKey k files e.1 e.2) files

/-- The keys the bundle does not carry go, by the names made from their identifiers.
SOURCE: keyring.go:441-449 -/
def removeKeys (files : AList fun _ : Bytes => KeyFile) (current keys : Keyring) :
    AList fun _ : Bytes => KeyFile :=
  current.ids.foldl
    (fun files id => if (keys.lookup id).isSome then files else files.erase (keyPath id)) files

/-- The directory after `MkdirAll`. -/
def TrustState.madeDir : TrustDir := s.dir.getD ⟨0, 0o755, ∅⟩

/-- What an accepted bundle leaves: the keys first, the identity behind them and the
note last.  SOURCE: keyring.go:423-465 -/
def TrustState.take (current keys : Keyring)
    (bundle : HelperTrustBundle) : TrustState where
  dir := some
    { s.madeDir with files := removeKeys (writeKeys k s.madeDir.files keys) current keys }
  hostFile :=
    if hostID s = bundle.hostId.1 then s.hostFile else some (bundle.hostId.1 ++ [10])
  note := some ⟨bundle.hostId, bundle.issuedUnix, bundle.signedByKeyId⟩

/-- Replace the keyring and the identity with a bundle.  SOURCE: keyring.go:334-466 -/
def TrustStore.apply (bundle : HelperTrustBundle) :
    Except TrustError TrustState := do
  let keys ← checkBundle k bundle
  let current ← t.keyring k s
  let signer ← signerOf k t current keys (hostID s) bundle
  if !k.verify signer (trustBundleSigningBytes bundle) bundle.signature then
    throw (.refused ⟨.trustUntrusted, .wording "the signature of the bundle does not verify"⟩)
  if !current.entries.isEmpty && hostID s != bundle.hostId.1 then
    throw (.refused ⟨.wrongHost, .about "the bundle names another host" [bundle.hostId]⟩)
  checkOrder s current keys bundle
  return s.take k current keys bundle

/-- A bundle that is refused leaves the store as it was. -/
def TrustStore.applied (bundle : HelperTrustBundle) :
    TrustState :=
  match t.apply k s bundle with
  | .ok s' => s'
  | .error _ => s

def TrustStore.applyAll
    (bundles : List HelperTrustBundle) : TrustState :=
  bundles.foldl (t.applied k) s

end Flotestro.HelperCap
