import Flotestro.Library.Runs
import Flotestro.Audit.Model.Chain

/-!
# The audit export is tamper evident

What verification accepts is a linked chain: each event line names the digest of the event line
before it, and the reported digest is the tip.  Two accepted streams with one tip therefore hold
the same event lines.  An export is written as such a chain.  The members of an event line are the
record's, none of which goes to a field of the reader but the identifier, and the digest.  A rendered
line that is not nested too deep is read back as it was written, so verification follows the writer line by
line.  A raw message nested as deep as the library reads is written, in a line that is not read.
-/

set_option autoImplicit false

namespace Flotestro.Audit

open Library List

variable {json : JsonText} {sha : Sha256}

/-- The keys of an event line besides the identifier and the digest. -/
def otherKeys : List Bytes :=
  ["occurred_at", "actor_type", "actor_id", "action", "target_type", "target_id", "request_id",
    "outcome", "detail", "session_id", "acr", "amr", "auth_time", "target_hostname",
    "target_address", "approval_chain", "before", "after", "actor"].map key

/-- None of them goes to a field of the reader, whatever the case of its letters. -/
theorem fieldOf_otherKeys : ∀ k ∈ otherKeys, fieldOf k = none := by decide

def allAscii (l : List Bytes) : Bool := l.all fun k => k.all fun b => b < 128

theorem lt_of_allAscii {l : List Bytes} (h : allAscii l = true) {k : Bytes} (hk : k ∈ l) {b : UInt8}
    (hb : b ∈ k) : b < 128 := by
  simpa using all_eq_true.mp (all_eq_true.mp h k hk) b hb

theorem otherKeys_ascii : ∀ k ∈ otherKeys, ∀ b ∈ k, b < 128 := by
  have h : allAscii otherKeys = true := by decide
  exact fun _ hk _ hb => lt_of_allAscii h hk hb

theorem readKeys_ascii :
    ∀ k ∈ ["id", "prev_sha256", "count", "sha256_chain"].map key, ∀ b ∈ k, b < 128 := by
  have h : allAscii (["id", "prev_sha256", "count", "sha256_chain"].map key) = true := by decide
  exact fun _ hk _ hb => lt_of_allAscii h hk hb

variable {ms : Members} {lines : List Bytes} {c : ChainWriter} {written : List Record}
variable {record : Record}

theorem mem_encodeFields {fields : List (String × Encoded)} (h : encodeFields fields = some ms)
    {m : Bytes × JValue} (hm : m ∈ ms) : ∃ f ∈ fields, m.1 = key f.1 ∧ f.2 = some (some m.2) := by
  induction fields generalizing ms with
  | nil =>
    obtain rfl : [] = ms := by simpa [encodeFields] using h
    simp at hm
  | cons f fields ih =>
    obtain ⟨name, encoded⟩ := f
    cases encoded with
    | none => simp [encodeFields] at h
    | some value =>
      cases hrest : encodeFields fields with
      | none => simp [encodeFields, hrest] at h
      | some rest =>
        have hlater : m ∈ rest → ∃ f ∈ (name, some value) :: fields, m.1 = key f.1 ∧ f.2 = some (some m.2) := by
          intro hm
          obtain ⟨f, hf, hmember⟩ := ih hrest hm
          exact ⟨f, mem_cons_of_mem _ hf, hmember⟩
        cases value with
        | none =>
          obtain rfl : rest = ms := by simpa [encodeFields, hrest] using h
          exact hlater hm
        | some v =>
          obtain rfl : (key name, v) :: rest = ms := by simpa [encodeFields, hrest] using h
          rcases mem_cons.mp hm with rfl | hm
          · exact ⟨_, mem_cons_self, rfl, rfl⟩
          · exact hlater hm

/-! ### How deep a record is nested -/

/-- A raw message leaves room for the object of its line. -/
def Raw.shallow : Raw → Bool
  | .value v => v.levels < maxNestingDepth
  | .nil | .empty | .invalid => true

/-- A record whose raw messages all do. -/
def Record.shallow (record : Record) : Bool :=
  [record.detail, record.approvalChain, record.before, record.after].all Raw.shallow

/-- What is written of a member leaves room for the object of its line. -/
def Fits (encoded : Encoded) : Prop := ∀ v, encoded = some (some v) → v.levels < maxNestingDepth

theorem fits_of_le_one {v : JValue} (h : v.levels ≤ 1) : Fits (some (some v)) := by
  rintro w ⟨⟩
  exact Nat.lt_of_le_of_lt h (by decide)

theorem fits_required (s : Bytes) : Fits (required s) := fits_of_le_one (Nat.zero_le 1)

theorem fits_omitEmpty (s : Bytes) : Fits (omitEmpty s) := by
  unfold omitEmpty
  split
  · exact fun v h => nomatch h
  · exact fits_required s

theorem fits_compact {v : JValue} (h : v.levels < maxNestingDepth) : Fits (compact v) := by
  unfold compact
  split
  · rintro w ⟨⟩
    exact h
  · exact fun w h => nomatch h

theorem Raw.fits_required {raw : Raw} (h : raw.shallow = true) : Fits raw.required := by
  cases raw with
  | nil => exact fits_of_le_one (Nat.zero_le 1)
  | value v => exact fits_compact (of_decide_eq_true h)
  | empty | invalid => exact fun v h => nomatch h

theorem Raw.fits_omitEmpty {raw : Raw} (h : raw.shallow = true) : Fits raw.omitEmpty := by
  cases raw with
  | value v => exact fits_compact (of_decide_eq_true h)
  | nil | empty | invalid => exact fun v h => nomatch h

theorem fits_times (occurredAt : Option Bytes) (authTime : Option (Option Bytes)) :
    Fits (occurredAt.bind required) ∧ Fits (omitNil authTime) := by
  constructor
  · cases occurredAt with
    | none => exact fun v h => nomatch h
    | some time => exact fits_required time
  · match authTime with
    | none | some none => exact fun v h => nomatch h
    | some (some time) => exact fits_required time

/-- The names and the actor are one level deep. -/
theorem fits_lists (amr : List Bytes) (actor : Option (List (Bytes × Bytes))) :
    Fits (some (if amr = [] then none else some (.strings amr))) ∧ Fits (some (actor.map .fields)) := by
  constructor
  · split
    · exact fun v h => nomatch h
    · exact fits_of_le_one (Nat.le_refl 1)
  · cases actor with
    | none => exact fun v h => nomatch h
    | some fields => exact fits_of_le_one (Nat.le_refl 1)

theorem Record.fits_fields (h : record.shallow = true) : ∀ f ∈ record.fields, Fits f.2 := by
  simp only [Record.shallow, all_cons, all_nil, Bool.and_true, Bool.and_eq_true] at h
  obtain ⟨hdetail, happroval, hbefore, hafter⟩ := h
  obtain ⟨hoccurred, hauth⟩ := fits_times record.occurredAt record.authTime
  obtain ⟨hamr, hactor⟩ := fits_lists record.amr record.actor
  simp only [Record.fields, forall_mem_cons]
  exact ⟨hoccurred, fits_required _, fits_required _, fits_required _, fits_omitEmpty _, fits_omitEmpty _,
    fits_omitEmpty _, fits_required _, Raw.fits_required hdetail, fits_omitEmpty _, fits_omitEmpty _,
    hamr, hauth, fits_omitEmpty _, fits_omitEmpty _, Raw.fits_omitEmpty happroval, Raw.fits_omitEmpty hbefore,
    Raw.fits_omitEmpty hafter, hactor, nofun⟩

theorem marshalEntry_eq {prev : Bytes} (h : marshalEntry record prev = some ms) :
    ∃ mid, ms = (key "id", .int record.id.toInt) :: (mid ++ [(key "prev_sha256", .str prev)]) ∧
      (∀ m ∈ mid, m.1 ∈ otherKeys) ∧ (record.shallow = true → ms.shallow = true) := by
  cases hmid : encodeFields record.fields with
  | none => simp [marshalEntry, hmid] at h
  | some mid =>
    obtain rfl : (key "id", .int record.id.toInt) :: (mid ++ [(key "prev_sha256", .str prev)]) = ms := by
      simpa [marshalEntry, hmid] using h
    refine ⟨mid, rfl, fun m hm => ?_, fun hshallow => all_eq_true.mpr fun m hm => decide_eq_true ?_⟩
    · obtain ⟨f, hf, hkey, -⟩ := mem_encodeFields hmid hm
      rw [hkey]
      exact mem_map_of_mem (f := fun f : String × Encoded => key f.1) hf
    · rcases mem_cons.mp hm with rfl | hm
      · exact fits_of_le_one (v := .int record.id.toInt) (Nat.zero_le 1) _ rfl
      rcases mem_append.mp hm with hm | hm
      · obtain ⟨f, hf, -, hvalue⟩ := mem_encodeFields hmid hm
        exact Record.fits_fields hshallow f hf m.2 hvalue
      · rw [mem_singleton.mp hm]
        exact fits_required prev _ rfl

/-! ## Reading back -/

/-- A member the reader makes the same of before and after it was written. -/
def Kept (m : Bytes × JValue) : Prop :=
  (∀ b ∈ m.1, b < 128) ∧
    (fieldOf m.1 = none ∨ (∃ n, m.2 = .int n) ∨ ∃ s, m.2 = .str s ∧ ∀ b ∈ s, b < 128)

theorem Kept.set_eq {m m' : Bytes × JValue} (h : Kept m) (hs : Survives m m') (p : Probe) :
    p.set m' = p.set m := by
  obtain ⟨hascii, hkind⟩ := h
  have hkey : m'.1 = m.1 := hs.1 hascii
  rcases hkind with hnone | ⟨n, hn⟩ | ⟨s, hstr, hsascii⟩
  · simp [Probe.set, hkey, hnone]
  · obtain rfl : m' = m := Prod.ext hkey ((hs.2.1 n hn).trans hn.symm)
    rfl
  · obtain rfl : m' = m := Prod.ext hkey ((hs.2.2 s hstr hsascii).trans hstr.symm)
    rfl

theorem foldlM_set_survives {ms' : Members} (h : Forall₂ Survives ms ms')
    (hkept : ∀ m ∈ ms, Kept m) (p : Probe) : ms'.foldlM Probe.set p = ms.foldlM Probe.set p := by
  induction h generalizing p with
  | nil => rfl
  | cons hm _ ih =>
    rw [foldlM_cons, (hkept _ mem_cons_self).set_eq hm]
    congr 1
    funext q
    exact ih (fun m hmem => hkept m (mem_cons_of_mem _ hmem)) q

theorem unmarshal_render (hshallow : ms.shallow = true) (hkept : ∀ m ∈ ms, Kept m) :
    unmarshal json (json.render ms) = ms.foldlM Probe.set emptyProbe := by
  obtain ⟨ms', hparse, hsurvives⟩ := json.parse_render ms hshallow
  simp only [unmarshal, hparse]
  exact foldlM_set_survives hsurvives hkept emptyProbe

theorem foldlM_set_other (h : ∀ m ∈ ms, fieldOf m.1 = none) (p : Probe) :
    ms.foldlM Probe.set p = some p := by
  induction ms with
  | nil => rfl
  | cons m ms ih =>
    have hset : p.set m = some p := by simp [Probe.set, h m mem_cons_self]
    rw [foldlM_cons, hset]
    exact ih fun m hm => h m (mem_cons_of_mem _ hm)

theorem unmarshal_entry {digest : Bytes} (hshallow : record.shallow = true)
    (h : marshalEntry record (hexEncode digest) = some ms) :
    unmarshal json (json.render ms) =
      some ⟨some record.id.toInt, some (hexEncode digest), none, none⟩ := by
  obtain ⟨mid, rfl, hmid, hfits⟩ := marshalEntry_eq h
  have hid : fieldOf (key "id") = some .id := by decide
  have hprev : fieldOf (key "prev_sha256") = some .prevSHA256 := by decide
  rw [unmarshal_render (hfits hshallow)]
  · simp [Probe.set, hid, foldlM_set_other fun m hm => fieldOf_otherKeys _ (hmid m hm), hprev,
      emptyProbe]
  · intro m hm
    rcases mem_cons.mp hm with rfl | hm
    · exact ⟨readKeys_ascii _ (by simp), .inr (.inl ⟨_, rfl⟩)⟩
    · rcases mem_append.mp hm with hm | hm
      · exact ⟨otherKeys_ascii _ (hmid m hm), .inl (fieldOf_otherKeys _ (hmid m hm))⟩
      · rw [mem_singleton.mp hm]
        exact ⟨readKeys_ascii _ (by simp), .inr (.inr ⟨_, rfl, fun b hb => hexEncode_ascii hb⟩)⟩

/-- Lines as they are written, each with its line feed. -/
def terminated (lines : List Bytes) : Bytes := lines.flatMap fun line => line ++ [10]

def Record.encodes (record : Record) : Bool := (encodeFields record.fields).isSome

def firstID (records : List Record) : Int := (records.head?.map fun r => r.id.toInt).getD 0

def lastID (records : List Record) : Int := (records.getLast?.map fun r => r.id.toInt).getD 0

/-- The writer has written `lines`, one for each record of `written`, and verification
of them stands where the writer stands. -/
structure Exports (json : JsonText) (sha : Sha256) (c : ChainWriter) (lines : List Bytes)
    (written : List Record) : Prop where
  opened : c.closed = false
  out : c.out = terminated lines
  rendered : ∀ line ∈ lines, ∃ ms, line = json.render ms
  count : c.count = written.length
  verified : lines.foldlM (verifyLine json sha) ⟨sha.sum [], 0, 0, 0, false⟩ =
    .ok ⟨c.prev, c.count, firstID written, lastID written, false⟩

theorem firstID_concat (written : List Record) (record : Record) :
    firstID (written ++ [record]) =
      if written.length + 1 = 1 then record.id.toInt else firstID written := by
  cases written with
  | nil => rfl
  | cons r rest => simp [firstID]

section
variable (h : Exports json sha c lines written)
include h

theorem Exports.writeLine (hshallow : record.shallow = true)
    (hms : marshalEntry record (hexEncode c.prev) = some ms) :
    Exports json sha (c.writeLine sha (json.render ms)) (lines ++ [json.render ms])
      (written ++ [record]) where
  opened := h.opened
  out := by simp [ChainWriter.writeLine, h.out, terminated]
  rendered := forall_mem_concat h.rendered ⟨ms, rfl⟩
  count := by simp [ChainWriter.writeLine, h.count]
  verified := by
    rw [foldlM_append, h.verified]
    simp only [bind, Except.bind, foldlM_cons, foldlM_nil, pure, Except.pure, verifyLine,
      unmarshal_entry hshallow hms, VerifyState.event, ChainWriter.writeLine, firstID_concat, h.count]
    simp [lastID]

theorem Exports.write (hshallow : record.shallow = true) :
    ∃ lines', Exports json sha (c.write json sha record) lines'
      (written ++ [record].filter Record.encodes) := by
  cases hmid : encodeFields record.fields with
  | none =>
    have hkept : c.write json sha record = c := by
      simp [ChainWriter.write, marshalEntry, hmid]
    rw [hkept]
    exact ⟨lines, by simpa [Record.encodes, hmid] using h⟩
  | some mid =>
    obtain ⟨ms, hms⟩ : ∃ ms, marshalEntry record (hexEncode c.prev) = some ms := by
      simp [marshalEntry, hmid]
    have hwrite : c.write json sha record = c.writeLine sha (json.render ms) := by
      simp [ChainWriter.write, h.opened, hms]
    rw [hwrite]
    exact ⟨_, by simpa [Record.encodes, hmid] using h.writeLine hshallow hms⟩

theorem Exports.writes {records : List Record} (hshallow : ∀ record ∈ records, record.shallow = true) :
    ∃ lines', Exports json sha (records.foldl (ChainWriter.write json sha) c) lines'
      (written ++ records.filter Record.encodes) := by
  induction records generalizing c lines written with
  | nil => exact ⟨lines, by simpa using h⟩
  | cons record records ih =>
    obtain ⟨lines₁, h₁⟩ := h.write (hshallow record mem_cons_self)
    obtain ⟨lines₂, h₂⟩ := ih h₁ fun other hother => hshallow other (mem_cons_of_mem _ hother)
    refine ⟨lines₂, ?_⟩
    rwa [append_assoc, ← filter_append] at h₂

end

end Flotestro.Audit
