import Flotestro.Library.Runs
import Flotestro.Secrets.Model.Rewrap

/-!
# What a rewrap moves

A version whose wrapped data key has room for a nonce and not for a tag is known as damaged and stepped
over.  One that is shorter still, or that has the right length and does not open, is not: its error
takes the transaction of its batch back and ends the rewrap.  A version that is stepped over is read again
by every later pass, so each batch has less room for what is still to be read.  What the passes come to
follows from how the two kinds are spread over the batches.
-/

set_option autoImplicit false

namespace Flotestro.Secrets

open Library List

variable {κ : Type} {p : Provider κ} {draw : Bytes → Nat → Nonce}

/-! ## Wrapping and unwrapping -/

theorem decrypt_encrypt (g : Gcm κ) (k : κ) (nonce : Nonce) (value secretID : Bytes) (version : Nat) :
    g.decrypt k nonce.1 (g.encrypt k nonce value secretID version) secretID version = .ok value := by
  have hlength := g.length_sealBytes k nonce.1 value (associatedData secretID version)
  unfold Gcm.decrypt Gcm.encrypt
  rw [if_neg (not_not.mpr nonce.2), if_neg (by omega), (g.openBytes_eq_some_iff _ _ _ _ value).mpr rfl]

theorem unwrap_wrap {nonce : Nonce} {id dek wrapped : Bytes} (h : p.wrap nonce id dek = .ok wrapped) :
    p.unwrap id wrapped = .ok dek ∧ wrapped ≠ [] := by
  unfold Provider.wrap at h
  split at h
  · cases h
  next k hk =>
    cases h
    have hsealed : (p.gcm.encrypt k nonce dek (kekLabel id) 0).length = dek.length + overhead :=
      p.gcm.length_sealBytes _ _ _ _
    have hlong : nonceSize < (nonce.1 ++ p.gcm.encrypt k nonce dek (kekLabel id) 0).length := by
      rw [length_append, hsealed]
      simp only [overhead]
      omega
    constructor
    · unfold Provider.unwrap
      rw [hk]
      dsimp only
      rw [if_neg (by omega), take_left' nonce.2, drop_left' nonce.2, decrypt_encrypt]
    · exact ne_nil_of_length_pos (by omega)

theorem active_loaded (h : p.activeKeyID = .ok p.active) :
    p.active ≠ [] ∧ (p.keys p.active).isSome = true := by
  obtain ⟨hkey, h⟩ := of_else h nofun
  obtain ⟨hne, hloaded⟩ := not_or.mp hkey
  exact ⟨hne, by rwa [Bool.not_eq_true, Option.isNone_eq_false_iff] at hloaded⟩

theorem wrap_of_loaded {id : Bytes} (h : (p.keys id).isSome = true) (nonce : Nonce) (dek : Bytes) :
    ∃ wrapped, p.wrap nonce id dek = .ok wrapped := by
  obtain ⟨k, hk⟩ := Option.isSome_iff_exists.mp h
  unfold Provider.wrap
  rw [hk]
  exact ⟨_, rfl⟩

/-- Any other wrapped key that does not open is not known as damaged. -/
theorem unwrap_fatal {id wrapped : Bytes} {e : Error} (herr : p.unwrap id wrapped = .error e)
    (hshape : (p.keys id).isSome = true →
      ¬(nonceSize < wrapped.length ∧ wrapped.length < nonceSize + overhead)) :
    e.isCorruptedVersion = false := by
  unfold Provider.unwrap at herr
  cases hk : p.keys id with
  | none =>
    rw [hk] at herr
    cases herr
    rfl
  | some k =>
    rw [hk] at herr hshape
    dsimp only at herr
    split at herr
    · cases herr
      rfl
    next hlong =>
      have hroom : ¬wrapped.length < nonceSize + overhead := fun h => hshape rfl ⟨by omega, h⟩
      unfold Gcm.decrypt at herr
      rw [if_neg (by rw [length_take]; omega), if_neg (by rw [length_drop]; omega)] at herr
      cases hopen : p.gcm.openBytes k (wrapped.take nonceSize) (wrapped.drop nonceSize)
          (associatedData (kekLabel id) 0) with
      | some dek =>
        rw [hopen] at herr
        cases herr
      | none =>
        rw [hopen] at herr
        cases herr
        rfl

/-- A wrapped key with room for a nonce and not for a tag. -/
theorem unwrap_corrupted {id wrapped : Bytes} (hloaded : (p.keys id).isSome = true)
    (hlow : nonceSize < wrapped.length) (hhigh : wrapped.length < nonceSize + overhead) :
    ∃ e, p.unwrap id wrapped = .error e ∧ e.isCorruptedVersion = true := by
  obtain ⟨k, hk⟩ := Option.isSome_iff_exists.mp hloaded
  unfold Provider.unwrap Gcm.decrypt
  rw [hk]
  dsimp only
  rw [if_neg (by omega), if_neg (by rw [length_take]; omega), if_pos (by rw [length_drop]; omega)]
  exact ⟨_, rfl, rfl⟩

section

variable {e fresh : Envelope} {nonce : Nonce} {toKeyID : Bytes}

theorem rewrap_ok (h : e.rewrap p nonce toKeyID = .ok fresh) :
    e.version = envelopeVersion ∧ ∃ dek wrapped, p.unwrap e.keyID e.wrappedDEK = .ok dek ∧
      p.wrap nonce toKeyID dek = .ok wrapped ∧ fresh = { e with keyID := toKeyID, wrappedDEK := wrapped } := by
  obtain ⟨hversion, h⟩ := of_else h nofun
  obtain ⟨dek, hdek, h⟩ := bind_eq_ok.mp h
  obtain ⟨wrapped, hwrapped, h⟩ := bind_eq_ok.mp h
  cases h
  exact ⟨not_not.mp hversion, dek, wrapped, hdek, hwrapped, rfl⟩

theorem rewrap_of_unwrap {dek : Bytes} (hversion : e.version = envelopeVersion)
    (hdek : p.unwrap e.keyID e.wrappedDEK = .ok dek) (hloaded : (p.keys toKeyID).isSome = true)
    (nonce : Nonce) : ∃ fresh, e.rewrap p nonce toKeyID = .ok fresh := by
  obtain ⟨wrapped, hwrapped⟩ := wrap_of_loaded hloaded nonce dek
  unfold Envelope.rewrap
  rw [if_neg (not_not.mpr hversion), hdek]
  simp only [bind, Except.bind, hwrapped]
  exact ⟨_, rfl⟩

theorem rewrap_of_error {err : Error} (hversion : e.version = envelopeVersion)
    (herr : p.unwrap e.keyID e.wrappedDEK = .error err) : e.rewrap p nonce toKeyID = .error err := by
  unfold Envelope.rewrap
  rw [if_neg (not_not.mpr hversion), herr]
  rfl

/-- The value is sealed under the data key, which stays the same. -/
theorem openValue_of_rewrap (h : e.rewrap p nonce toKeyID = .ok fresh) (hto : toKeyID ≠ [])
    {associated value : Bytes} (hvalue : e.openValue p associated = .ok value) :
    fresh.openValue p associated = .ok value := by
  obtain ⟨hversion, dek, wrapped, hdek, hwrapped, rfl⟩ := rewrap_ok h
  obtain ⟨hunwrap, hne⟩ := unwrap_wrap hwrapped
  unfold Envelope.openValue at hvalue ⊢
  by_cases hnames : e.keyID = [] ∨ e.wrappedDEK = []
  · rw [if_neg (not_not.mpr hversion), if_pos hnames] at hvalue
    cases hvalue
  · rw [if_neg (not_not.mpr hversion), if_neg hnames, hdek] at hvalue
    rw [if_neg (not_not.mpr hversion), if_neg (not_or.mpr ⟨hto, hne⟩), hunwrap]
    exact hvalue

end

/-- A live version whose wrapped data key opens under the key it names. -/
def Row.opens (p : Provider κ) (row : Row) : Bool :=
  !row.destroyed && envelopeVersion ≤ row.envelope.version &&
    (p.unwrap row.envelope.keyID row.envelope.wrappedDEK).toOption.isSome

/-- A version is known as damaged if it does not open: it is of the form the rewrap reads, its
key is loaded, and its wrapped data key has room for a nonce and not for a tag. -/
structure Row.Recognised (p : Provider κ) (row : Row) : Prop where
  version : row.envelope.version = envelopeVersion
  loaded : (p.keys row.envelope.keyID).isSome = true
  shape : row.opens p = false → nonceSize < row.envelope.wrappedDEK.length ∧
    row.envelope.wrappedDEK.length < nonceSize + overhead

/-- A version before and after the rewrap. -/
structure Rewrapped (p : Provider κ) (row row' : Row) : Prop where
  moved : row.opens p = true → row'.envelope.keyID = p.active ∧ row'.opens p = true ∧
    row'.key = row.key ∧ ∀ associated value,
      row.envelope.openValue p associated = .ok value → row'.envelope.openValue p associated = .ok value
  other : row.opens p = false → row' = row

/-- A version as a pass leaves it. -/
def Moved (p : Provider κ) (draw : Bytes → Nat → Nonce) (row row' : Row) : Prop :=
  row' = row ∨ row.pending p.active = true ∧ ∃ fresh,
    row.envelope.rewrap p (draw row.secretID row.version) p.active = .ok fresh ∧
      row' = row.withEnvelope fresh

variable {row row' : Row}

theorem pending_iff {active : Bytes} : row.pending active = true ↔
    row.destroyed = false ∧ envelopeVersion ≤ row.envelope.version ∧ row.envelope.keyID ≠ active := by
  simp [Row.pending, and_assoc]

theorem opens_iff : row.opens p = true ↔ row.destroyed = false ∧
    envelopeVersion ≤ row.envelope.version ∧
      ∃ dek, p.unwrap row.envelope.keyID row.envelope.wrappedDEK = .ok dek := by
  rw [Row.opens]
  cases p.unwrap row.envelope.keyID row.envelope.wrappedDEK <;> simp [Except.toOption]

theorem Row.Recognised.rewrap_of_damaged (h : row.Recognised p) (hopens : row.opens p = false)
    (nonce : Nonce) :
    ∃ e, row.envelope.rewrap p nonce p.active = .error e ∧ e.isCorruptedVersion = true := by
  obtain ⟨hlow, hhigh⟩ := h.shape hopens
  obtain ⟨e, he, hcorrupted⟩ := unwrap_corrupted h.loaded hlow hhigh
  exact ⟨e, rewrap_of_error h.version he, hcorrupted⟩

/-- The error of a version that is not known as damaged ends the pass. -/
theorem rewrap_of_not_recognised (hpending : row.pending p.active = true) (h : ¬row.Recognised p)
    (nonce : Nonce) :
    ∃ e, row.envelope.rewrap p nonce p.active = .error e ∧ e.isCorruptedVersion = false := by
  obtain ⟨hlive, hat, -⟩ := pending_iff.mp hpending
  by_cases hversion : row.envelope.version = envelopeVersion
  swap
  · refine ⟨.envelopeVersion row.envelope.version, ?_, rfl⟩
    unfold Envelope.rewrap
    rw [if_pos hversion]
    rfl
  cases hdek : p.unwrap row.envelope.keyID row.envelope.wrappedDEK with
  | error e =>
    refine ⟨e, rewrap_of_error hversion hdek, unwrap_fatal hdek fun hloaded hshape => ?_⟩
    exact h ⟨hversion, hloaded, fun _ => hshape⟩
  | ok dek =>
    have hopens : row.opens p = true := opens_iff.mpr ⟨hlive, hat, dek, hdek⟩
    have hloaded : (p.keys row.envelope.keyID).isSome = true := by
      cases hk : p.keys row.envelope.keyID with
      | some _ => rfl
      | none =>
        unfold Provider.unwrap at hdek
        rw [hk] at hdek
        cases hdek
    exact absurd ⟨hversion, hloaded, fun hclosed => by rw [hopens] at hclosed; cases hclosed⟩ h

theorem not_pending_of_rewrap {nonce : Nonce} {fresh : Envelope}
    (h : row.envelope.rewrap p nonce p.active = .ok fresh) (other : Row) :
    (other.withEnvelope fresh).pending p.active = false := by
  obtain ⟨-, _, _, -, -, rfl⟩ := rewrap_ok h
  rw [← Bool.not_eq_true, pending_iff]
  exact fun hpending => hpending.2.2 rfl

/-! ### What passes leave -/

theorem Moved.refl (row : Row) : Moved p draw row row := .inl rfl

theorem Moved.eq_of_pending (h : Moved p draw row row') (hpending : row'.pending p.active = true) :
    row' = row := by
  rcases h with h | ⟨-, fresh, hfresh, rfl⟩
  · exact h
  · rw [not_pending_of_rewrap hfresh row] at hpending
    cases hpending

theorem Moved.trans {a b c : Row} (hab : Moved p draw a b) (hbc : Moved p draw b c) : Moved p draw a c := by
  rcases hbc with rfl | ⟨hpending, hfresh⟩
  · exact hab
  · obtain rfl := hab.eq_of_pending hpending
    exact .inr ⟨hpending, hfresh⟩

theorem Moved.key_eq (h : Moved p draw row row') : row'.key = row.key := by
  rcases h with rfl | ⟨-, _, -, rfl⟩ <;> rfl

/-- Where no version on another key opens any more, the rewrap has done what it is for. -/
theorem Moved.rewrapped (hactive : p.active ≠ []) (h : Moved p draw row row')
    (hdone : row'.pending p.active = true → row'.opens p = false) : Rewrapped p row row' := by
  rcases h with rfl | ⟨hpending, fresh, hfresh, rfl⟩
  · refine ⟨fun hopens => ⟨?_, hopens, rfl, fun _ _ hvalue => hvalue⟩, fun _ => rfl⟩
    obtain ⟨hlive, hversion, -⟩ := opens_iff.mp hopens
    by_contra hkey
    rw [hdone (pending_iff.mpr ⟨hlive, hversion, hkey⟩)] at hopens
    cases hopens
  · obtain ⟨hlive, hversion, -⟩ := pending_iff.mp hpending
    have hvalue := @openValue_of_rewrap κ p row.envelope fresh _ _ hfresh hactive
    obtain ⟨-, dek, wrapped, hdek, hwrapped, rfl⟩ := rewrap_ok hfresh
    refine ⟨fun _ => ⟨rfl, ?_, rfl, fun _ _ => hvalue⟩, fun hclosed => ?_⟩
    · exact opens_iff.mpr ⟨hlive, hversion, dek, (unwrap_wrap hwrapped).1⟩
    · rw [opens_iff.mpr ⟨hlive, hversion, dek, hdek⟩] at hclosed
      cases hclosed

/-- What the rewrap is for is done only where no version on another key opens any more. -/
theorem Rewrapped.closed (h : Rewrapped p row row') (hpending : row'.pending p.active = true) :
    row'.opens p = false := by
  cases hopens : row.opens p with
  | true => exact absurd (h.moved hopens).1 (pending_iff.mp hpending).2.2
  | false => rw [h.other hopens, hopens]

/-- The rows of a batch are moved where they open; those that do not stay between what was read
before the batch and what comes after it. -/
theorem moveRows_spec (draw : Bytes → Nat → Nonce) (hactive : (p.keys p.active).isSome = true)
    {batch rows kept rest : List Row} (hrows : (rows.map Row.key).Nodup)
    (hpending : rows.filter (Row.pending p.active) = kept ++ batch ++ rest)
    (h : ∀ row ∈ batch, row.Recognised p) (moved damaged : Nat) :
    ∃ rows' damaged', moveRows p draw p.active batch ⟨rows, moved, damaged⟩ =
        .ok ⟨rows', moved + batch.countP (Row.opens p), damaged'⟩ ∧
      Forall₂ (Moved p draw) rows rows' ∧
      rows'.filter (Row.pending p.active) = kept ++ batch.filter (fun row => !row.opens p) ++ rest := by
  induction batch generalizing rows kept moved damaged with
  | nil => exact ⟨rows, damaged, rfl, forall₂_same.mpr fun row _ => Moved.refl row, hpending⟩
  | cons row batch ih =>
    have hrecognised := h row mem_cons_self
    have hrest : ∀ row ∈ batch, row.Recognised p := fun other hother => h other (mem_cons_of_mem _ hother)
    rw [append_assoc, cons_append] at hpending
    obtain ⟨hmem, hrow⟩ : row ∈ rows ∧ row.pending p.active = true := by
      rw [← mem_filter, hpending]
      exact mem_append_right _ mem_cons_self
    cases hopens : row.opens p with
    | true =>
      obtain ⟨-, -, dek, hdek⟩ := opens_iff.mp hopens
      obtain ⟨fresh, hfresh⟩ := rewrap_of_unwrap hrecognised.version hdek hactive
        (draw row.secretID row.version)
      have hkeys : ((updateKey Row.key row.key (Row.withEnvelope fresh) rows).map Row.key).Nodup := by
        rw [map_key_updateKey (f := Row.withEnvelope fresh) fun _ => rfl]
        exact hrows
      have hleft : (updateKey Row.key row.key (Row.withEnvelope fresh) rows).filter
          (Row.pending p.active) = kept ++ batch ++ rest := by
        rw [filter_updateKey (not_pending_of_rewrap hfresh), hpending, append_assoc]
        apply filter_ne_append
        rw [← hpending]
        exact (filter_sublist.map Row.key).nodup hrows
      obtain ⟨rows', damaged', hrun, hmoved, hfilter⟩ := ih hkeys hleft hrest (moved + 1) damaged
      refine ⟨rows', damaged', ?_, forall₂_trans ?_ hmoved (fun _ _ _ => Moved.trans), ?_⟩
      · rw [moveRows, hfresh]
        dsimp only
        rw [hrun, countP_cons_of_pos hopens, Nat.add_assoc moved, Nat.add_comm 1]
      · exact forall₂_updateKey Moved.refl hrows hmem (.inr ⟨hrow, fresh, hfresh, rfl⟩)
      · rw [hfilter, filter_cons_of_neg (by rw [hopens]; decide)]
    | false =>
      obtain ⟨e, he, hcorrupted⟩ := hrecognised.rewrap_of_damaged hopens (draw row.secretID row.version)
      obtain ⟨rows', damaged', hrun, hmoved, hfilter⟩ := @ih rows (kept ++ [row]) hrows
        (by rw [hpending]; simp) hrest moved (damaged + 1)
      refine ⟨rows', damaged', ?_, hmoved, ?_⟩
      · rw [moveRows, he]
        dsimp only
        rw [if_pos hcorrupted, hrun, countP_cons_of_neg (by rw [hopens]; decide)]
      · rw [hfilter, filter_cons_of_pos (by rw [hopens]; rfl), append_assoc kept [row], singleton_append]

/-- A version that is not known as damaged takes its batch back. -/
theorem moveRows_failed {batch : List Row} (hbatch : ∀ row ∈ batch, row.pending p.active = true)
    (h : ∃ row ∈ batch, ¬row.Recognised p) (pass : Pass) :
    ∃ e moved, moveRows p draw p.active batch pass = .error (e, moved) := by
  induction batch generalizing pass with
  | nil =>
    obtain ⟨_, hrow, -⟩ := h
    cases hrow
  | cons first batch ih =>
    obtain ⟨row, hrow, hfatal⟩ := h
    have hrest := fun hmem => ih (fun other hother => hbatch other (mem_cons_of_mem _ hother)) ⟨row, hmem, hfatal⟩
    unfold moveRows
    rcases mem_cons.mp hrow with rfl | hmem
    · obtain ⟨e, he, hfatal⟩ := rewrap_of_not_recognised (hbatch row mem_cons_self) hfatal
        (draw row.secretID row.version)
      rw [he]
      dsimp only
      rw [if_neg (by rw [hfatal]; decide)]
      exact ⟨e, _, rfl⟩
    · split
      · exact hrest hmem _
      split
      · exact hrest hmem _
      · exact ⟨_, _, rfl⟩

/-- No version on another key opens. -/
def Done (p : Provider κ) (rows : List Row) : Prop :=
  ∀ row ∈ rows.filter (Row.pending p.active), row.opens p = false

/-- Whether the passes come to every version that opens, of those on another key that are still to be
read.  The damaged ones found before are in front of them in every batch, which has room for the others up
to its limit: no version of a batch may end the rewrap, and one of it has to be moved. -/
inductive Reached (p : Provider κ) : Nat → List Row → Prop where
  | nothing {damaged : Nat} {rows : List Row} (h : ∀ row ∈ rows, row.opens p = false) :
      Reached p damaged rows
  | batch {damaged : Nat} {rows : List Row}
      (recognised : ∀ row ∈ rows.take (batchLimit - damaged), row.Recognised p)
      (moves : ∃ row ∈ rows.take (batchLimit - damaged), row.opens p = true)
      (next : Reached p (damaged + (rows.take (batchLimit - damaged)).countP fun row => !row.opens p)
        (rows.drop (batchLimit - damaged))) : Reached p damaged rows

section

variable {rows seen rest : List Row}

theorem length_countP_opens (p : Provider κ) (rows : List Row) :
    rows.length = rows.countP (Row.opens p) + (rows.filter fun row => !row.opens p).length := by
  rw [← countP_eq_length_filter, length_eq_countP_add_countP (Row.opens p)]
  simp

theorem Reached.nothing_iff {damaged : Nat}
    (h : ¬((∀ row ∈ rows.take (batchLimit - damaged), row.Recognised p) ∧
      ∃ row ∈ rows.take (batchLimit - damaged), row.opens p = true)) :
    Reached p damaged rows ↔ ∀ row ∈ rows, row.opens p = false := by
  constructor
  · intro hreached
    cases hreached with
    | nothing hclosed => exact hclosed
    | batch recognised moves next => exact absurd ⟨recognised, moves⟩ h
  · exact .nothing

theorem Reached.batch_iff {damaged : Nat}
    (hrecognised : ∀ row ∈ rows.take (batchLimit - damaged), row.Recognised p)
    (hmoves : ∃ row ∈ rows.take (batchLimit - damaged), row.opens p = true) :
    Reached p damaged rows ↔
      Reached p (damaged + (rows.take (batchLimit - damaged)).countP fun row => !row.opens p)
        (rows.drop (batchLimit - damaged)) := by
  constructor
  · intro hreached
    cases hreached with
    | nothing hclosed =>
      obtain ⟨row, hrow, hopens⟩ := hmoves
      rw [hclosed row (mem_of_mem_take hrow)] at hopens
      cases hopens
    | batch _ _ next => exact next
  · exact .batch hrecognised hmoves

/-- The versions on another key, the damaged ones found before in front. -/
structure Standing (p : Provider κ) (rows seen rest : List Row) : Prop where
  keys : (rows.map Row.key).Nodup
  pending : rows.filter (Row.pending p.active) = seen ++ rest
  recognised : ∀ row ∈ seen, row.Recognised p
  closed : ∀ row ∈ seen, row.opens p = false
  room : seen.length ≤ batchLimit

theorem Standing.chosen (h : Standing p rows seen rest) :
    (rows.filter (Row.pending p.active)).take batchLimit = seen ++ rest.take (batchLimit - seen.length) := by
  rw [h.pending, take_append, take_of_length_le h.room]

theorem Standing.done_iff (h : Standing p rows seen rest) :
    Done p rows ↔ ∀ row ∈ rest, row.opens p = false := by
  unfold Done
  rw [h.pending]
  exact ⟨fun hdone row hrow => hdone row (mem_append_right _ hrow),
    fun hrest row hrow => (mem_append.mp hrow).elim (h.closed row) (hrest row)⟩

theorem Standing.failed (h : Standing p rows seen rest) (hactive : p.activeKeyID = .ok p.active)
    (hfatal : ¬∀ row ∈ rest.take (batchLimit - seen.length), row.Recognised p) :
    ∃ moved err, rewrapBatch p draw batchLimit rows = ⟨moved, 0, some err, rows⟩ := by
  push Not at hfatal
  obtain ⟨row, hrow, hfatal⟩ := hfatal
  obtain ⟨e, moved, hrun⟩ := @moveRows_failed κ p draw
    ((rows.filter (Row.pending p.active)).take batchLimit)
    (fun row hrow => (mem_filter.mp (mem_of_mem_take hrow)).2)
    ⟨row, by rw [h.chosen]; exact mem_append_right _ hrow, hfatal⟩ ⟨rows, 0, 0⟩
  refine ⟨moved, .failed e, ?_⟩
  unfold rewrapBatch
  rw [hactive]
  dsimp only
  rw [hrun]

/-- A pass moves what opens in its batch, and leaves the rest of the batch in front. -/
theorem Standing.pass (h : Standing p rows seen rest) (draw : Bytes → Nat → Nonce)
    (hactive : p.activeKeyID = .ok p.active)
    (hrecognised : ∀ row ∈ rest.take (batchLimit - seen.length), row.Recognised p) :
    ∃ rows' err, rewrapBatch p draw batchLimit rows =
        ⟨(rest.take (batchLimit - seen.length)).countP (Row.opens p),
          rows'.countP (Row.pending p.active), err, rows'⟩ ∧
      Forall₂ (Moved p draw) rows rows' ∧
      Standing p rows' (seen ++ (rest.take (batchLimit - seen.length)).filter fun row => !row.opens p)
        (rest.drop (batchLimit - seen.length)) := by
  have hclosed : seen.filter (fun row => !row.opens p) = seen :=
    filter_eq_self.mpr fun row hrow => by rw [h.closed row hrow]; rfl
  have hnone : seen.countP (Row.opens p) = 0 :=
    countP_eq_zero.mpr fun row hrow => by rw [h.closed row hrow]; decide
  obtain ⟨rows', damaged, hrun, hmoved, hfilter⟩ := @moveRows_spec κ p draw (active_loaded hactive).2
    (seen ++ rest.take (batchLimit - seen.length)) rows [] (rest.drop (batchLimit - seen.length)) h.keys
    (by rw [nil_append, append_assoc, take_append_drop, h.pending])
    (fun row hrow => (mem_append.mp hrow).elim (h.recognised row) (hrecognised row)) 0 0
  rw [filter_append, hclosed] at hfilter
  rw [countP_append, hnone, Nat.zero_add, Nat.zero_add] at hrun
  refine ⟨rows', (rewrapBatch p draw batchLimit rows).err, ?_, hmoved, ?_, hfilter, ?_, ?_, ?_⟩
  · unfold rewrapBatch
    rw [hactive]
    dsimp only
    rw [h.chosen, hrun]
  · rw [map_eq_of_forall₂ hmoved fun _ _ => Moved.key_eq]
    exact h.keys
  · intro row hrow
    exact (mem_append.mp hrow).elim (h.recognised row) fun hrow => hrecognised row (mem_filter.mp hrow).1
  · intro row hrow
    exact (mem_append.mp hrow).elim (h.closed row) fun hrow => by simpa using (mem_filter.mp hrow).2
  · have hroom := h.room
    have hle := length_filter_le (fun row => !row.opens p) (rest.take (batchLimit - seen.length))
    rw [length_take] at hle
    rw [length_append]
    omega

/-- The passes end, and have moved every version that opens if and only if they reach it. -/
theorem rewrapFrom_spec (draw : Bytes → Nat → Nonce) (hactive : p.activeKeyID = .ok p.active)
    (h : Standing p rows seen rest) {fuel : Nat} (hfuel : seen.length + rest.length < fuel)
    (total unreadable : Nat) :
    ∃ report, rewrapFrom p draw fuel rows total unreadable = some report ∧
      Forall₂ (Moved p draw) rows report.rows ∧
      (Done p report.rows ↔ Reached p seen.length rest) := by
  -- every pass but the last moves a version, so fewer are left
  induction fuel generalizing rows seen rest total unreadable with
  | zero => exact absurd hfuel (Nat.not_lt_zero _)
  | succ fuel ih =>
    unfold rewrapFrom
    by_cases hrecognised : ∀ row ∈ rest.take (batchLimit - seen.length), row.Recognised p
    swap
    · obtain ⟨moved, err, hbatch⟩ := @Standing.failed κ p draw _ _ _ h hactive hrecognised
      have hsame : Forall₂ (Moved p draw) rows rows := forall₂_same.mpr fun row _ => Moved.refl row
      have hiff := h.done_iff.trans (Reached.nothing_iff fun hc => hrecognised hc.1).symm
      rw [hbatch]
      dsimp only
      split
      · exact ⟨_, rfl, hsame, hiff⟩
      · exact ⟨_, rfl, hsame, hiff⟩
    obtain ⟨rows', err, hbatch, hmoved, hstanding⟩ := h.pass draw hactive hrecognised
    rw [hbatch]
    dsimp only
    by_cases hnone : (rest.take (batchLimit - seen.length)).countP (Row.opens p) = 0
    · have hclosed := fun row hrow => Bool.eq_false_iff.mpr (countP_eq_zero.mp hnone row hrow)
      have hiff : Done p rows' ↔ Reached p seen.length rest := by
        rw [hstanding.done_iff, Reached.nothing_iff fun hc => ?_]
        · refine ⟨fun hdrop row hrow => ?_, fun hrest row hrow => hrest row (mem_of_mem_drop hrow)⟩
          rw [← take_append_drop (batchLimit - seen.length) rest] at hrow
          exact (mem_append.mp hrow).elim (hclosed row) (hdrop row)
        · obtain ⟨-, row, hrow, hopens⟩ := hc
          rw [hclosed row hrow] at hopens
          cases hopens
      split
      · exact ⟨_, rfl, hmoved, hiff⟩
      · rw [if_pos (.inr hnone)]
        exact ⟨_, rfl, hmoved, hiff⟩
    · rw [if_neg fun hc => hnone hc.2]
      have hiff := Reached.batch_iff hrecognised (countP_pos_iff.mp (Nat.pos_of_ne_zero hnone))
      rw [countP_eq_length_filter, ← length_append] at hiff
      by_cases hleft : rows'.countP (Row.pending p.active) = 0
      · rw [if_pos (.inl hleft)]
        rw [countP_eq_length_filter, length_eq_zero_iff] at hleft
        refine ⟨_, rfl, hmoved, ?_, fun _ row hrow => ?_⟩
        · intro hdone
          exact hiff.mpr (.nothing (hstanding.done_iff.mp hdone))
        · rw [hleft] at hrow
          cases hrow
      · rw [if_neg (not_or.mpr ⟨hleft, hnone⟩)]
        have hless : (seen ++ (rest.take (batchLimit - seen.length)).filter fun row => !row.opens p).length +
            (rest.drop (batchLimit - seen.length)).length < fuel := by
          have hcount := length_countP_opens p (rest.take (batchLimit - seen.length))
          rw [length_take] at hcount
          rw [length_append, length_drop]
          omega
        obtain ⟨report, hreport, hmoved', hdone⟩ := ih hstanding hless _ _
        exact ⟨report, hreport, forall₂_trans hmoved hmoved' fun _ _ _ => Moved.trans, hdone.trans hiff.symm⟩

end

theorem Store.keys_nodup (store : Store) : (store.rows.map Row.key).Nodup := by
  refine pairwise_map.mpr (store.ordered.imp fun hbefore hkey => ?_)
  obtain ⟨hsecret, hversion⟩ := Prod.mk.inj hkey
  rcases hbefore with hlt | ⟨-, hlt⟩
  · rw [hsecret] at hlt
    exact List.lt_irrefl _ hlt
  · rw [hversion] at hlt
    exact Nat.lt_irrefl _ hlt

/-- **When damaged versions do not hold the rotation.**  The rewrap returns with every live version
whose wrapped data key opens on the active key with its value, and every other row unchanged, if and only
if its batches reach every such version. -/
theorem rewrap_moves_what_opens_iff (p : Provider κ) (draw : Bytes → Nat → Nonce) (store : Store)
    (hactive : p.activeKeyID = .ok p.active) (fuel : Nat)
    (hfuel : store.rows.countP (Row.pending p.active) < fuel) :
    (∃ report, rewrap p draw fuel store = some report ∧
      Forall₂ (Rewrapped p) store.rows report.rows) ↔
    Reached p 0 (store.rows.filter (Row.pending p.active)) := by
  have hstanding : Standing p store.rows [] (store.rows.filter (Row.pending p.active)) :=
    ⟨store.keys_nodup, rfl, by simp, by simp, Nat.zero_le _⟩
  rw [countP_eq_length_filter] at hfuel
  obtain ⟨report, hreport, hmoved, hiff⟩ := @rewrapFrom_spec κ p _ _ _ draw hactive hstanding fuel
    (by rwa [length_nil, Nat.zero_add]) 0 0
  rw [length_nil] at hiff
  rw [← hiff]
  constructor
  · rintro ⟨report', hreport', hrewrapped⟩ row' hrow'
    obtain rfl := Option.some.inj (hreport.symm.trans hreport')
    obtain ⟨hmem, hpending⟩ := mem_filter.mp hrow'
    obtain ⟨row, -, hr⟩ := exists_of_mem_forall₂ hrewrapped hmem
    exact hr.closed hpending
  · intro hdone
    refine ⟨report, hreport, (forall₂_and_right hmoved fun row hrow hpending =>
      hdone row (mem_filter.mpr ⟨hrow, hpending⟩)).imp fun row row' h => ?_⟩
    exact h.1.rewrapped (active_loaded hactive).1 h.2

/-- A sealing that ends a value with its key. -/
def plainGcm : Gcm UInt8 where
  newCipher dek := dek.head?
  sealBytes k _ value _ := value ++ replicate overhead k
  openBytes k _ ciphertext _ :=
    if replicate overhead k <:+ ciphertext then some (ciphertext.take (ciphertext.length - overhead))
    else none
  length_sealBytes k _ value _ := by rw [length_append, length_replicate]
  openBytes_eq_some_iff k _ ciphertext _ value := by
    constructor
    · intro h
      obtain ⟨hsuffix, h⟩ := of_then h nofun
      obtain ⟨rest, rfl⟩ := hsuffix
      obtain rfl : rest = value := by simpa using h
      rfl
    · rintro rfl
      rw [if_pos (suffix_append _ _)]
      simp

/-- Two keys that are loaded, the second of them active. -/
def twoKeys : Provider UInt8 := ⟨plainGcm, fun id => if id = [1] ∨ id = [2] then id.head? else none, [2]⟩

def zeroNonce : Nonce := ⟨replicate nonceSize 0, rfl⟩

/-- The first version of a secret, under the first key. -/
def underFirst (secretID : UInt8) (wrappedDEK : Bytes) : Row :=
  ⟨[secretID], 1, false, ⟨envelopeVersion, [1], wrappedDEK, zeroNonce.1, 9 :: replicate overhead 7⟩⟩

/-- The data key 7, wrapped under the first key. -/
def goodKey : Bytes := zeroNonce.1 ++ 7 :: replicate overhead 1

def damagedFirst (wrappedDEK : Bytes) : Store :=
  ⟨[underFirst 1 wrappedDEK, underFirst 2 goodKey],
    .cons (fun row hrow => .inl (by rw [mem_singleton.mp hrow]; exact .rel (by decide)))
      (.cons (fun _ h => nomatch h) .nil)⟩

theorem rewrap_moves_what_opens_iff_truncated :
    ∃ report, rewrap twoKeys (fun _ _ => zeroNonce) 3 (damagedFirst (replicate 20 0)) = some report ∧
      Forall₂ (Rewrapped twoKeys) (damagedFirst (replicate 20 0)).rows report.rows := by
  refine (rewrap_moves_what_opens_iff twoKeys (fun _ _ => zeroNonce)
    (damagedFirst (replicate 20 0)) (by decide) 3 (by decide)).mpr ?_
  refine .batch (fun row hrow => ?_) ⟨underFirst 2 goodKey, by decide, by decide⟩ (.nothing nofun)
  rcases mem_cons.mp hrow with rfl | hrow
  · exact ⟨rfl, rfl, fun _ => by decide⟩
  · obtain rfl := mem_singleton.mp hrow
    exact ⟨rfl, rfl, fun h => absurd h (by decide)⟩

/-- A wrapped data key of one byte in front of a version that opens: the rewrap ends, and
nothing was moved. -/
theorem short_key_holds_rotation :
    (rewrap twoKeys (fun _ _ => zeroNonce) 3 (damagedFirst [0])).map Report.rows =
        some (damagedFirst [0]).rows ∧
      (underFirst 2 goodKey).opens twoKeys = true ∧ (underFirst 2 goodKey).envelope.keyID ≠ twoKeys.active := by
  exact ⟨by decide, by decide, by decide⟩

end Flotestro.Secrets
