import Flotestro.HelperCap.Model.Trust

/-!
# What a run of bundles is meant to keep

The keyring after an accepted bundle is its key set, the identity of the host stays, and the
bundles accepted one after another are ordered by their moments of issue.
-/

set_option autoImplicit false

namespace Flotestro.HelperCap

open Library

def bundleKeys (bundle : HelperTrustBundle) : List Text := bundle.keys.1.map HelperTrustKey.publicKey

def Trusts (k : KeyPrimitives) (t : TrustStore) (s : TrustState) (key : Text) : Prop :=
  ∃ ring, t.keyring k s = .ok ring ∧ ring.lookup (k.keyID key) = some key

/-- The bundle behind `pre` is accepted in a run that starts at `s`. -/
def Accepted (k : KeyPrimitives) (t : TrustStore) (s : TrustState) (pre : List HelperTrustBundle)
    (bundle : HelperTrustBundle) : Prop :=
  ∃ s', t.apply k (t.applyAll k s pre) bundle = .ok s'

/-- A key file that loads is named after the key it holds, and a file named after a
key that holds it loads. -/
structure Tidy (k : KeyPrimitives) (t : TrustStore) (s : TrustState) : Prop where
  named : ∀ dir, s.dir = some dir → ∀ name file key, dir.files.lookup name = some file →
    pubSuffix <:+ name → readKey k t file = some key → name = keyPath (k.keyID key)
  loads : ∀ dir, s.dir = some dir → ∀ file key,
    dir.files.lookup (keyPath (k.keyID key)) = some file →
    file.content = k.encodePublicKeyPEM key → readKey k t file = some key

/-- Of two bundles issued in one second the later carries besides the keys of the
earlier only keys that are new: no bundle before them carried them and the keyring at the start
did not hold them. -/
def SecondsApart (k : KeyPrimitives) (t : TrustStore) (s : TrustState)
    (bundles : List HelperTrustBundle) : Prop :=
  ∀ pre b mid b' post, bundles = pre ++ b :: (mid ++ b' :: post) → b.issuedUnix = b'.issuedUnix →
    ∀ key ∈ bundleKeys b', key ∉ bundleKeys b →
      ¬ Trusts k t s key ∧ ∀ c ∈ pre, key ∉ bundleKeys c

/-- What is kept along a run of bundles from `s`. -/
structure TrustKept (k : KeyPrimitives) (t : TrustStore) (s : TrustState)
    (bundles : List HelperTrustBundle) : Prop where
  /-- after a bundle is accepted the keyring loads and is the key set of the bundle -/
  keyring : ∀ pre b post, bundles = pre ++ b :: post → ∀ s',
    t.apply k (t.applyAll k s pre) b = .ok s' → ∃ ring, t.keyring k s' = .ok ring ∧
      ∀ id key, ring.lookup id = some key ↔ key ∈ bundleKeys b ∧ k.keyID key = id
  /-- the identity, once set, stays -/
  identity : ∀ pre post, bundles = pre ++ post → hostID (t.applyAll k s pre) ≠ [] →
    hostID (t.applyAll k s bundles) = hostID (t.applyAll k s pre)
  /-- the moments of issue never decrease, and within a second keys are only added -/
  ordered : ∀ pre b mid b' post, bundles = pre ++ b :: (mid ++ b' :: post) → Accepted k t s pre b →
    Accepted k t s (pre ++ b :: mid) b' → b.issuedUnix ≤ b'.issuedUnix ∧
      (b.issuedUnix = b'.issuedUnix → bundleKeys b ⊆ bundleKeys b')
  /-- a key withdrawn by an accepted bundle does not come back through one issued no later -/
  withdrawn : ∀ pre b mid b' post, bundles = pre ++ b :: (mid ++ b' :: post) → Accepted k t s pre b →
    Accepted k t s (pre ++ b :: mid) b' → b'.issuedUnix ≤ b.issuedUnix →
      ∀ key, Trusts k t (t.applyAll k s pre) key → key ∉ bundleKeys b → key ∉ bundleKeys b'

end Flotestro.HelperCap
