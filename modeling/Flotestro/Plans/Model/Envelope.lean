import Flotestro.Jcs.Model.Canonical
import Flotestro.Library.HashChain

/-!
# Plan envelopes

The plan as it is hashed, approved and executed.  A text is its code points, a list of the source is
`none` where it is nil, and a time counts from the zero time.  What `crypto/sha256` and
`encoding/json` do with a time is a parameter.
-/

set_option autoImplicit false

namespace Flotestro.Plans

open Library Flotestro.Jcs

/-- SOURCE: envelope.go:80-91 -/
structure Precondition where
  kind : Chars
  subject : Chars
  expected : Chars

/-- SOURCE: envelope.go:93-103 -/
structure Step where
  kind : Chars
  subject : Chars
  spec : Chars

/-- SOURCE: envelope.go:105-114 -/
structure Artifact where
  kind : Chars
  name : Chars
  version : Chars
  architecture : Chars
  origin : Chars
  digest : Chars

/-- SOURCE: envelope.go:116-124 -/
structure Effect where
  kind : Chars
  subject : Chars
  value : Chars

/-- SOURCE: envelope.go:126-143 -/
structure Effects where
  expected : Option (List Effect)
  rebootRequired : Bool
  servicesRestart : Option (List Chars)
  servicesRestartKnown : Bool
  downloadBytes : UInt64
  downloadKnown : Bool
  installDeltaBytes : Int64
  installDeltaKnown : Bool

/-- SOURCE: envelope.go:145-152 -/
structure RollbackPlan where
  mechanism : Chars
  id : Chars
  available : Bool
  reason : Chars
  deriving DecidableEq

/-- Nanoseconds since the zero time. -/
abbrev Time := Int

/-- SOURCE: envelope.go:154-170 -/
structure Envelope where
  schemaVersion : UInt32
  plannerVersion : Chars
  actionType : Chars
  hostID : Chars
  inventoryRevision : Chars
  resourceRevision : Chars
  preconditions : Option (List Precondition)
  steps : Option (List Step)
  effects : Effects
  artifacts : Option (List Artifact)
  rollback : RollbackPlan
  expiresAt : Time
  description : Chars

/-! ## The orders of the lists -/

def utf8 (s : Chars) : Bytes := (bytes s).data.toList

/-- Texts are compared byte by byte. -/
def lessText (a b : Chars) : Bool := (utf8 a).map UInt8.toNat < (utf8 b).map UInt8.toNat

/-- The first key that differs decides. -/
def lessBy {α : Type} : List (α → Chars) → α → α → Bool
  | [], _, _ => false
  | key :: keys, a, b => if key a ≠ key b then lessText (key a) (key b) else lessBy keys a b

/-- SOURCE: envelope.go:308-316 -/
def lessPrecondition : Precondition → Precondition → Bool :=
  lessBy [Precondition.kind, Precondition.subject, Precondition.expected]

/-- SOURCE: envelope.go:318-326 -/
def lessStep : Step → Step → Bool := lessBy [Step.subject, Step.kind, Step.spec]

/-- SOURCE: envelope.go:328-345 -/
def lessArtifact : Artifact → Artifact → Bool :=
  lessBy [Artifact.kind, Artifact.name, Artifact.architecture, Artifact.version, Artifact.origin,
    Artifact.digest]

/-- SOURCE: envelope.go:347-355 -/
def lessEffect : Effect → Effect → Bool := lessBy [Effect.kind, Effect.subject, Effect.value]

def sortBy {α : Type} (less : α → α → Bool) (l : List α) : List α :=
  l.insertionSort fun a b => less b a = false

/-- A copy; a copy of an empty list is nil. -/
def copied {α : Type} (l : Option (List α)) : Option (List α) :=
  if l.getD [] = [] then none else l

def orEmpty {α : Type} (l : Option (List α)) : Option (List α) := some (l.getD [])

/-- SOURCE: envelope.go:175-208 -/
def Envelope.normalized (e : Envelope) : Envelope :=
  { e with
    preconditions := orEmpty ((copied e.preconditions).map (sortBy lessPrecondition))
    steps := orEmpty ((copied e.steps).map (sortBy lessStep))
    artifacts := orEmpty ((copied e.artifacts).map (sortBy lessArtifact))
    effects := { e.effects with
      expected := orEmpty ((copied e.effects.expected).map (sortBy lessEffect))
      servicesRestart := orEmpty ((copied e.effects.servicesRestart).map (sortBy lessText)) }
    expiresAt := e.expiresAt - e.expiresAt % 1000000000 }

/-- SOURCE: envelope.go:216-225 -/
def Envelope.hashed (e : Envelope) : Envelope :=
  { e.normalized with description := [], hostID := [], inventoryRevision := [], expiresAt := 0 }

/-! ## The JSON of an envelope -/

section

variable {ν : Type} (num : Int → ν)

def textField (name : String) (s : Chars) : Chars × Json ν := (name.toList, .str s)

def boolField (name : String) (b : Bool) : Chars × Json ν := (name.toList, .bool b)

def numField (name : String) (n : Int) : Chars × Json ν := (name.toList, .num (num n))

/-- A text that is left out when it is empty. -/
def omitEmpty (name : String) (s : Chars) : List (Chars × Json ν) :=
  if s = [] then [] else [textField name s]

/-- A list of the source, `null` where it is nil. -/
def listTree {α : Type} (tree : α → Json ν) : Option (List α) → Json ν
  | none => .null
  | some l => .arr (l.map tree)

def Precondition.tree (p : Precondition) : Json ν :=
  .obj [textField "kind" p.kind, textField "subject" p.subject, textField "expected" p.expected]

def Step.tree (s : Step) : Json ν :=
  .obj [textField "kind" s.kind, textField "subject" s.subject, textField "spec" s.spec]

def Artifact.tree (a : Artifact) : Json ν :=
  .obj [textField "kind" a.kind, textField "name" a.name, textField "version" a.version,
    textField "architecture" a.architecture, textField "origin" a.origin,
    textField "digest" a.digest]

def Effect.tree (e : Effect) : Json ν :=
  .obj (textField "kind" e.kind :: textField "subject" e.subject :: omitEmpty "value" e.value)

def Effects.tree (e : Effects) : Json ν :=
  .obj [("expected".toList, listTree Effect.tree e.expected),
    boolField "reboot_required" e.rebootRequired,
    ("services_restart".toList, listTree .str e.servicesRestart),
    boolField "services_restart_known" e.servicesRestartKnown,
    numField num "download_bytes" e.downloadBytes.toNat,
    boolField "download_known" e.downloadKnown,
    numField num "install_delta_bytes" e.installDeltaBytes.toInt,
    boolField "install_delta_known" e.installDeltaKnown]

def RollbackPlan.tree (r : RollbackPlan) : Json ν :=
  .obj [textField "mechanism" r.mechanism, textField "id" r.id, boolField "available" r.available,
    textField "reason" r.reason]

/-- The fields that every envelope has.  SOURCE: envelope.go:154-170 -/
def Envelope.fields (stamp : Time → Chars) (e : Envelope) : List (Chars × Json ν) :=
  [numField num "schema_version" e.schemaVersion.toNat,
    textField "planner_version" e.plannerVersion,
    textField "action_type" e.actionType,
    textField "host_id" e.hostID,
    textField "inventory_revision" e.inventoryRevision,
    textField "resource_revision" e.resourceRevision,
    ("preconditions".toList, listTree Precondition.tree e.preconditions),
    ("steps".toList, listTree Step.tree e.steps),
    ("effects".toList, e.effects.tree num),
    ("artifacts".toList, listTree Artifact.tree e.artifacts),
    ("rollback".toList, e.rollback.tree),
    textField "expires_at" (stamp e.expiresAt)]

def Envelope.tree (stamp : Time → Chars) (e : Envelope) : Json ν :=
  .obj (e.fields num stamp ++ omitEmpty "description" e.description)

end

/-- What the standard library does: doubles, the text of a time, and SHA-256.  Every integer
below `2 ^ 53` is a double whose shortest digits denote it, and SHA-256 is taken as injective. -/
structure Host (F : Type) extends Strconv F where
  exact : ∀ n : Int, n.natAbs < 2 ^ 53 → ∃ f, (shape f).value = n
  stamp : Time → Chars
  sum256 : Bytes → Bytes
  sum256_injective : Function.Injective sum256

section

variable {F : Type} (host : Host F)

/-- An integer as it stands in a JSON text. -/
def intParts (n : Int) : Parts := ⟨n < 0, decimalDigits n.natAbs, [], 0⟩

/-- The canonical JSON of an envelope.  SOURCE: canonical.go:47-54, jcs.go:20-26 -/
def Envelope.normalizeRFC8785 (e : Envelope) : Option Chars :=
  write (fun n => numberText host.toStrconv (intParts n)) (e.tree id host.stamp)

/-- SOURCE: envelope.go:227-241 -/
def Envelope.hash (e : Envelope) : Bytes :=
  match e.hashed.normalizeRFC8785 host with
  | some t => host.sum256 (utf8 t)
  | none => []

/-- SOURCE: envelope.go:243-246 -/
def Envelope.hashHex (e : Envelope) : Bytes := hexEncode (e.hash host)

/-! ## The check before the change -/

/-- SOURCE: envelope.go:248-255 -/
structure Reference where
  hash : Bytes
  schemaVersion : UInt32
  plannerVersion : Chars
  expiresAt : Time

/-- Why a plan is refused, with what the message names. -/
inductive Refusal where
  | schema (approved written : UInt32)
  | planner (approved executing : Chars)
  | expired (expiry : Time)
  | noDigest
  | stale (approved computed : Bytes)

/-- SOURCE: envelope.go:297-306 -/
def shortHex (sum : Bytes) : Bytes :=
  if (hexEncode sum).length > 12 then (hexEncode sum).take 12
  else if hexEncode sum = [] then ascii "none".toList
  else hexEncode sum

def lowerByte (b : UInt8) : UInt8 := if 65 ≤ b ∧ b ≤ 90 then b + 32 else b

/-- Equal but for the case of letters; hex is ASCII. -/
def equalFold (a b : Bytes) : Bool := a.map lowerByte = b.map lowerByte

/-- SOURCE: envelope.go:257-279 -/
def Envelope.verify (e : Envelope) (expected : Reference) (now : Time) : Except Refusal Unit :=
  if expected.schemaVersion ≠ 0 ∧ expected.schemaVersion ≠ e.schemaVersion then
    .error (.schema expected.schemaVersion e.schemaVersion)
  else if expected.plannerVersion ≠ [] ∧ expected.plannerVersion ≠ e.plannerVersion then
    .error (.planner expected.plannerVersion e.plannerVersion)
  else if expected.expiresAt ≠ 0 ∧ expected.expiresAt < now then
    .error (.expired expected.expiresAt)
  else if expected.hash.length = 0 then .error .noDigest
  else if equalFold (hexEncode expected.hash) (e.hashHex host) = false then
    .error (.stale (shortHex expected.hash) (shortHex (e.hash host)))
  else .ok ()

end

end Flotestro.Plans
