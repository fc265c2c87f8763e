import Mathlib.Logic.Equiv.List
import Mathlib.Tactic.DeriveEncodable
import Flotestro.Library.HashChain
import Flotestro.Library.Space

/-!
# The export of the audit trail

An export is a file of JSON lines: every event line carries the digest of the line before it,
and a closing line carries the count and the digest of the last event.  The text of JSON is a
parameter: `render` writes the members of an object and `parse` reads the members of a line.
Which member of a line goes to which field of the reader is modelled as the library decides it.
-/

set_option autoImplicit false

namespace Flotestro.Audit

open Library

instance encodableByte : Encodable UInt8 :=
  Encodable.ofLeftInverse UInt8.toNat UInt8.ofNat fun _ => UInt8.ofNat_toNat

/-- The levels of arrays and objects the library reads, `maxNestingDepth` of `encoding/json`. -/
def maxNestingDepth : Nat := 10000

/-- A value of a member; `other` is anything the reader of a chain takes for neither a
number of 64 bits nor a string, with the levels of arrays and objects it has. -/
inductive JValue where
  | null
  | int (n : Int)
  | str (s : Bytes)
  | strings (l : List Bytes)
  | fields (l : List (Bytes × Bytes))
  | other (levels : Nat) (raw : Bytes)
deriving Encodable

/-- How deep arrays and objects are nested in a value. -/
def JValue.levels : JValue → Nat
  | .null | .int _ | .str _ => 0
  | .strings _ | .fields _ => 1
  | .other levels _ => levels

/-- The members of an object, in the order they are written. -/
abbrev Members := List (Bytes × JValue)

/-- The object of the members, a level itself, is nested no deeper than the library reads. -/
def Members.shallow (ms : Members) : Bool := ms.all fun m => m.2.levels < maxNestingDepth

/-- What is read back of a member: an ASCII key, a number and an ASCII string are; other
texts may be replaced where they are not UTF-8. -/
def Survives (m m' : Bytes × JValue) : Prop :=
  ((∀ b ∈ m.1, b < 128) → m'.1 = m.1) ∧ (∀ n, m.2 = .int n → m'.2 = .int n) ∧
    (∀ s, m.2 = .str s → (∀ b ∈ s, b < 128) → m'.2 = .str s)

/-- The JSON library.  An object is written on one line, from its brace on, and read
back member by member if it is not nested too deep; what `parse` makes of a line nobody rendered is
left open. -/
structure JsonText where
  render : Members → Bytes
  parse : Bytes → Option Members
  render_start : ∀ ms, ∃ rest, render ms = 0x7B :: rest
  render_line : ∀ ms, ∀ b ∈ render ms, b ≠ 10 ∧ b ≠ 13
  parse_render : ∀ ms : Members, ms.shallow = true →
    ∃ ms', parse (render ms) = some ms' ∧ List.Forall₂ Survives ms ms'
  parse_deep : ∀ ms : Members, ms.shallow = false → parse (render ms) = none

/-- Members written as a brace and as many blanks as their number tells. -/
instance : Inhabited JsonText where
  default :=
    { render := fun ms => 0x7B :: List.replicate (Encodable.encode ms) 0x20
      parse := fun line => (Encodable.decode (line.length - 1)).filter Members.shallow
      render_start := fun _ => ⟨_, rfl⟩
      render_line := by
        intro ms b hb
        rcases List.mem_cons.mp hb with rfl | hb
        · decide
        · rw [List.eq_of_mem_replicate hb]
          decide
      parse_render := fun ms hms =>
        ⟨ms, by simp [hms],
          List.forall₂_same.mpr fun _ _ => ⟨fun _ => rfl, fun _ h => h, fun _ h _ => h⟩⟩
      parse_deep := fun ms hms => by simp [hms] }

/-- SHA-256, taken as injective. -/
structure Sha256 where
  sum : Bytes → Bytes
  sum_injective : Function.Injective sum

instance : Inhabited Sha256 := ⟨⟨id, Function.injective_id⟩⟩

/-- A raw JSON message of a record: not given, given empty, not JSON, or a value. -/
inductive Raw where
  | nil
  | empty
  | invalid
  | value (v : JValue)

/-- A written event.  A time is its text, or none when it has none.
SOURCE: audit.go:357-384 -/
structure Record where
  id : Int64
  occurredAt : Option Bytes
  actorType : Bytes
  actorID : Bytes
  action : Bytes
  targetType : Bytes
  targetID : Bytes
  requestID : Bytes
  outcome : Bytes
  detail : Raw
  sessionID : Bytes
  acr : Bytes
  amr : List Bytes
  authTime : Option (Option Bytes)
  targetHostname : Bytes
  targetAddress : Bytes
  approvalChain : Raw
  before : Raw
  after : Raw
  actor : Option (List (Bytes × Bytes))

def key (s : String) : Bytes := ascii s.toList

/-- A member of a record as it is encoded: none when it cannot be, no value when it is
left out. -/
abbrev Encoded := Option (Option JValue)

/-- A text that is always written. -/
def required (s : Bytes) : Encoded := some (some (.str s))

/-- A text that is left out when it is empty. -/
def omitEmpty (s : Bytes) : Encoded := if s = [] then some none else required s

/-- The library reads a raw message to write it, with no level around it. -/
def compact (v : JValue) : Encoded := if v.levels ≤ maxNestingDepth then some (some v) else none

/-- A raw message that is always written. -/
def Raw.required : Raw → Encoded
  | .nil => some (some .null)
  | .value v => compact v
  | .empty | .invalid => none

/-- A raw message that is left out when it is empty. -/
def Raw.omitEmpty : Raw → Encoded
  | .nil | .empty => some none
  | .value v => compact v
  | .invalid => none

/-- A time that is left out when it is not given. -/
def omitNil : Option (Option Bytes) → Encoded
  | none => some none
  | some none => none
  | some (some time) => Audit.required time

/-- The members of a record behind its identifier, by name.  SOURCE: audit.go:357-384 -/
def Record.fields (record : Record) : List (String × Encoded) :=
  [("occurred_at", record.occurredAt.bind required), ("actor_type", required record.actorType),
    ("actor_id", required record.actorID), ("action", required record.action),
    ("target_type", omitEmpty record.targetType), ("target_id", omitEmpty record.targetID),
    ("request_id", omitEmpty record.requestID), ("outcome", required record.outcome),
    ("detail", record.detail.required), ("session_id", omitEmpty record.sessionID),
    ("acr", omitEmpty record.acr),
    ("amr", some (if record.amr = [] then none else some (.strings record.amr))),
    ("auth_time", omitNil record.authTime), ("target_hostname", omitEmpty record.targetHostname),
    ("target_address", omitEmpty record.targetAddress),
    ("approval_chain", record.approvalChain.omitEmpty), ("before", record.before.omitEmpty),
    ("after", record.after.omitEmpty), ("actor", some (record.actor.map .fields))]

/-- The members that are written, none when one of them cannot be encoded. -/
def encodeFields : List (String × Encoded) → Option Members
  | [] => some []
  | (name, encoded) :: rest => do
    let value ← encoded
    let members ← encodeFields rest
    match value with
    | none => return members
    | some v => return (key name, v) :: members

/-- The members of an event line.  SOURCE: chain.go:20-25 -/
def marshalEntry (record : Record) (prevSHA256 : Bytes) : Option Members := do
  let members ← encodeFields record.fields
  return (key "id", .int record.id.toInt) :: (members ++ [(key "prev_sha256", .str prevSHA256)])

/-- The members of the closing line.  SOURCE: chain.go:27-31 -/
def marshalTrailer (count : Nat) (sha256Chain : Bytes) : Members :=
  [(key "count", .int count), (key "sha256_chain", .str sha256Chain)]

/-! ## Writing -/

/-- SOURCE: chain.go:33-41 -/
structure ChainWriter where
  out : Bytes
  prev : Bytes
  count : Nat
  closed : Bool

section

variable (json : JsonText) (sha : Sha256)

/-- SOURCE: chain.go:80-90 -/
def ChainWriter.writeLine (c : ChainWriter) (line : Bytes) : ChainWriter :=
  { c with out := c.out ++ line ++ [10], prev := sha.sum line, count := c.count + 1 }

/-- Add one event; a record that cannot be encoded, or one after the closing line, is
refused and leaves the export as it was.  SOURCE: chain.go:50-59 -/
def ChainWriter.write (c : ChainWriter) (record : Record) : ChainWriter :=
  if c.closed then c
  else
    match marshalEntry record (hexEncode c.prev) with
    | none => c
    | some members => c.writeLine sha (json.render members)

/-- SOURCE: chain.go:63-78 -/
def ChainWriter.close (c : ChainWriter) : ChainWriter :=
  if c.closed then c
  else
    { c with
      out := c.out ++ json.render (marshalTrailer c.count (hexEncode c.prev)) ++ [10]
      closed := true }

end

/-! ## Reading lines -/

/-- The fields a line is read into.  SOURCE: chain.go:137-142 -/
inductive Field where
  | id
  | prevSHA256
  | count
  | sha256Chain
deriving DecidableEq

def Field.name : Field → Bytes
  | .id => key "id"
  | .prevSHA256 => key "prev_sha256"
  | .count => key "count"
  | .sha256Chain => key "sha256_chain"

/-- A key as the library compares it when no field has it exactly: letters without
case, and with the two characters outside ASCII that fold to one. -/
def foldName : Bytes → Bytes
  | 0xC5 :: 0xBF :: rest => 83 :: foldName rest
  | 0xE2 :: 0x84 :: 0xAA :: rest => 75 :: foldName rest
  | b :: rest => (if 97 ≤ b ∧ b ≤ 122 then b - 32 else b) :: foldName rest
  | [] => []

def fieldOf (name : Bytes) : Option Field :=
  let fields := [Field.id, .prevSHA256, .count, .sha256Chain]
  (fields.find? fun f => f.name = name).or (fields.find? fun f => foldName f.name = foldName name)

/-- SOURCE: chain.go:137-142 -/
structure Probe where
  id : Option Int
  prevSHA256 : Option Bytes
  count : Option Int
  sha256Chain : Option Bytes

/-- One member into the fields: a null clears, a value of another type is an error. -/
def Probe.set (p : Probe) (member : Bytes × JValue) : Option Probe :=
  match fieldOf member.1, member.2 with
  | none, _ => some p
  | some .id, .null => some { p with id := none }
  | some .id, .int n => some { p with id := some n }
  | some .count, .null => some { p with count := none }
  | some .count, .int n => some { p with count := some n }
  | some .prevSHA256, .null => some { p with prevSHA256 := none }
  | some .prevSHA256, .str s => some { p with prevSHA256 := some s }
  | some .sha256Chain, .null => some { p with sha256Chain := none }
  | some .sha256Chain, .str s => some { p with sha256Chain := some s }
  | some _, _ => none

def emptyProbe : Probe := ⟨none, none, none, none⟩

/-- A line read into the fields; none when it is not JSON or does not fit them. -/
def unmarshal (json : JsonText) (line : Bytes) : Option Probe := do
  let members ← json.parse line
  members.foldlM Probe.set emptyProbe

/-- Why an export does not verify.  SOURCE: chain.go:132-172 -/
inductive ChainError where
  | afterClosing
  | notJSON
  | closingCount (counted : Option Int) (held : Nat)
  | closingDigest
  | notFollowing
  | neither
  | missingClosing

/-- The state of the loop over the lines. -/
structure VerifyState where
  prev : Bytes
  count : Nat
  first : Int
  last : Int
  closed : Bool

section

variable (json : JsonText) (sha : Sha256)

/-- An event extends the chain; the identifiers are kept when the line has one.
SOURCE: chain.go:156-167 -/
def VerifyState.event (v : VerifyState) (line : Bytes) (id : Option Int) : VerifyState where
  prev := sha.sum line
  count := v.count + 1
  first := if v.count + 1 = 1 then id.getD v.first else v.first
  last := id.getD v.last
  closed := v.closed

/-- One line that is not blank.  SOURCE: chain.go:132-171 -/
def verifyLine (v : VerifyState) (line : Bytes) : Except ChainError VerifyState :=
  if v.closed then .error .afterClosing
  else
    match unmarshal json line with
    | none => .error .notJSON
    | some probe =>
      match probe.sha256Chain, probe.prevSHA256 with
      | some chain, _ =>
        if probe.count ≠ some (v.count : Int) then .error (.closingCount probe.count v.count)
        else if chain ≠ hexEncode v.prev then .error .closingDigest
        else .ok { v with closed := true }
      | none, some prev =>
        if prev ≠ hexEncode v.prev then .error .notFollowing
        else .ok (v.event sha line probe.id)
      | none, none => .error .neither

end

end Flotestro.Audit
