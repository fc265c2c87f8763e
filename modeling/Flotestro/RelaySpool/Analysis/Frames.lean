import Flotestro.RelaySpool.Model.Segment

/-!
# Walking a segment

`readFrame` takes exactly the frames `frame` writes whose body is within the bound
(`readFrame_eq_frame_iff`).  From that: a walk of a file no frame of which is torn goes on
into whatever is appended to it (`walkAt_append`), the cut of a torn tail leaves the frames
before it as they were (`walkAt_take_stop`), and a frame a walk visits is read again at its
offset (`readFrame_drop_of_mem`).
-/

set_option autoImplicit false

namespace Flotestro.RelaySpool

open Library List

@[simp] theorem length_frame (kind : UInt8) (body : Bytes) :
    (frame kind body).length = headerSize + body.length := by
  simp [frame, magic, ascii, headerSize]
  omega

theorem header_eq_fields {header : Bytes} (h : header.length = headerSize) :
    header = header.take 4 ++ (header.getD 4 0 :: ((header.drop 5).take 4 ++ header.drop 9)) := by
  have h4 : 4 < header.length := by
    rw [h]
    decide
  have hlast : (header.drop 5).drop 4 = header.drop 9 := by rw [drop_drop]
  have hget : header.getD 4 0 = header[4] := by simp [h4]
  rw [← hlast, take_append_drop, hget, ← drop_eq_getElem_cons h4,
    take_append_drop]

/-- A header as `frame` writes it. -/
def headerOf (kind : UInt8) (body : Bytes) : Bytes :=
  magic ++ (kind :: (putLE 4 body.length ++ putLE 4 (crc32c body)))

theorem frame_eq_header (kind : UInt8) (body : Bytes) :
    frame kind body = headerOf kind body ++ body := by
  simp [frame, headerOf]

variable {body c r rest : Bytes} {kind : UInt8} {offset : Nat}

/-- **The frames that are read.**  A read succeeds exactly on what `frame` wrote, as
long as the body is within the bound. -/
theorem readFrame_eq_frame_iff : readFrame r = .frame kind body rest ↔
      body.length ≤ maxRecordBytes ∧ r = frame kind body ++ rest := by
  constructor
  · intro h
    unfold readFrame at h
    split at h
    · split at h <;> cases h
    rename_i header r' hheader
    obtain ⟨rfl, hlen⟩ := readFull_eq_some_iff.mp hheader
    split at h
    · cases h
    rename_i hmagic
    split at h
    · cases h
    split at h
    · cases h
    rename_i body' rest' hbody
    obtain ⟨rfl, hblen⟩ := readFull_eq_some_iff.mp hbody
    split at h
    · cases h
    rename_i hcrc
    cases h
    have h4 : ((header.drop 5).take 4).length = 4 := by simp [hlen, headerSize]
    have h9 : (header.drop 9).length = 4 := by simp [hlen, headerSize]
    have hl := putLE_getLE ((header.drop 5).take 4)
    have hc := putLE_getLE (header.drop 9)
    rw [h4, ← hblen] at hl
    rw [h9, ← not_not.mp hcrc] at hc
    refine ⟨by omega, ?_⟩
    rw [frame_eq_header, headerOf, hl, hc, ← not_not.mp hmagic, ← header_eq_fields hlen,
      append_assoc]
  · rintro ⟨hmax, rfl⟩
    have hlen : body.length < 256 ^ 4 := by
      have : maxRecordBytes < 256 ^ 4 := by decide
      omega
    have hheader : readFull headerSize (frame kind body ++ rest) =
        some (headerOf kind body, body ++ rest) := by
      rw [readFull_eq_some_iff]
      exact ⟨by simp [frame_eq_header], by simp [headerOf, magic, ascii, headerSize]⟩
    have hmagic : (headerOf kind body).take 4 = magic := rfl
    have hlength : ((headerOf kind body).drop 5).take 4 = putLE 4 body.length :=
      take_left' (length_putLE 4 _)
    have hcrc : (headerOf kind body).drop 9 = putLE 4 (crc32c body) := rfl
    have hkind : (headerOf kind body).getD 4 0 = kind := rfl
    simp only [readFrame, hheader, hmagic, hlength, hcrc, hkind, getLE_putLE_of_lt hlen,
      getLE_putLE_of_lt (crc32c_lt body), readFull_append rest rfl, Nat.not_lt.mpr hmax,
      ne_eq, not_true_eq_false, if_false]

theorem readFrame_eq_eof_iff : readFrame r = .eof ↔ r = [] := by
  constructor
  · intro h
    unfold readFrame at h
    repeat' split at h
    all_goals first | assumption | cases h
  · rintro rfl
    rfl

theorem length_rest_lt (h : readFrame r = .frame kind body rest) : rest.length < r.length := by
  obtain ⟨-, rfl⟩ := readFrame_eq_frame_iff.mp h
  simp [headerSize]

theorem walkFrom_fuel {fuel fuel' : Nat} (h : r.length ≤ fuel) (h' : r.length ≤ fuel') :
    walkFrom fuel offset r = walkFrom fuel' offset r := by
  induction fuel generalizing fuel' offset r with
  | zero =>
    obtain rfl := eq_nil_of_length_eq_zero (Nat.le_zero.mp h)
    cases fuel' <;> rfl
  | succ fuel ih =>
    cases fuel' with
    | zero =>
      obtain rfl := eq_nil_of_length_eq_zero (Nat.le_zero.mp h')
      rfl
    | succ fuel' =>
      rw [walkFrom, walkFrom]
      cases hf : readFrame r with
      | eof | torn => rfl
      | frame kind body rest =>
        have hlt := length_rest_lt hf
        have hrest : ∀ o, walkFrom fuel o rest = walkFrom fuel' o rest :=
          fun o => ih (by omega) (by omega)
        simp [hrest]

theorem walkAt_nil (offset : Nat) : walkAt offset [] = ⟨[], offset, false⟩ := rfl

theorem walkAt_torn (offset : Nat) (h : readFrame r = .torn) :
    walkAt offset r = ⟨[], offset, true⟩ := by
  cases r with
  | nil => cases h
  | cons b r => rw [walkAt, length_cons, walkFrom, h]

theorem walkAt_frame (offset : Nat) (h : readFrame r = .frame kind body rest) : walkAt offset r =
      ⟨⟨kind, body, offset, headerSize + body.length⟩ ::
          (walkAt (offset + (headerSize + body.length)) rest).visits,
        (walkAt (offset + (headerSize + body.length)) rest).stop,
        (walkAt (offset + (headerSize + body.length)) rest).torn⟩ := by
  have hlt := length_rest_lt h
  obtain ⟨n, hn⟩ : ∃ n, r.length = n + 1 := ⟨r.length - 1, by omega⟩
  rw [walkAt, hn, walkFrom, h]
  simp [walkAt, walkFrom_fuel (show rest.length ≤ n by omega) (le_refl rest.length)]

theorem frames_induction {motive : Nat → Bytes → Prop} (nil : ∀ offset, motive offset [])
    (torn : ∀ offset r, readFrame r = .torn → motive offset r)
    (frame : ∀ offset r kind body rest, readFrame r = .frame kind body rest →
      motive (offset + (headerSize + body.length)) rest → motive offset r)
    (offset : Nat) (r : Bytes) : motive offset r := by
  induction hn : r.length using Nat.strong_induction_on generalizing offset r with
  | _ n ih =>
    cases hf : readFrame r with
    | eof =>
      rw [readFrame_eq_eof_iff.mp hf]
      exact nil offset
    | torn => exact torn offset r hf
    | frame kind body rest =>
      have hlt := length_rest_lt hf
      exact frame offset r kind body rest hf (ih rest.length (by omega) _ rest rfl)

/-- A file every frame of which can be read. -/
def Clean (content : Bytes) : Prop := (walk content).torn = false

/-- A walk that meets no torn frame goes on into what is appended. -/
theorem walkAt_append (d : Bytes) (h : (walkAt offset c).torn = false) : walkAt offset (c ++ d) =
      ⟨(walkAt offset c).visits ++ (walkAt (offset + c.length) d).visits,
        (walkAt (offset + c.length) d).stop, (walkAt (offset + c.length) d).torn⟩ := by
  induction offset, c using frames_induction with
  | nil offset => simp [walkAt_nil]
  | torn offset r hf => simp [walkAt_torn offset hf] at h
  | frame offset r kind body rest hf ih =>
    rw [walkAt_frame offset hf] at h ⊢
    obtain ⟨hmax, rfl⟩ := readFrame_eq_frame_iff.mp hf
    have hfd : readFrame (RelaySpool.frame kind body ++ rest ++ d) = .frame kind body (rest ++ d) :=
      readFrame_eq_frame_iff.mpr ⟨hmax, append_assoc _ _ _⟩
    rw [walkAt_frame offset hfd, ih h]
    simp [Nat.add_assoc]

/-- A frame within the bound appended to a clean file is visited behind the others,
and the file stays clean. -/
theorem walk_append_frame (kind : UInt8) (hc : Clean c) (hmax : body.length ≤ maxRecordBytes) :
    (walk (c ++ frame kind body)).visits =
        (walk c).visits ++ [⟨kind, body, c.length, headerSize + body.length⟩] ∧
      Clean (c ++ frame kind body) := by
  have hf : readFrame (frame kind body) = .frame kind body [] :=
    readFrame_eq_frame_iff.mpr ⟨hmax, (append_nil _).symm⟩
  have hw : walk (c ++ frame kind body) = _ := walkAt_append (frame kind body) hc
  unfold Clean
  rw [hw, walkAt_frame _ hf]
  simp [walk, walkAt_nil]

theorem walkAt_stop_bounds (offset : Nat) (r : Bytes) :
    offset ≤ (walkAt offset r).stop ∧ (walkAt offset r).stop ≤ offset + r.length := by
  induction offset, r using frames_induction with
  | nil offset => simp [walkAt_nil]
  | torn offset r hf => simp [walkAt_torn offset hf]
  | frame offset r kind body rest hf ih =>
    obtain ⟨-, rfl⟩ := readFrame_eq_frame_iff.mp hf
    rw [walkAt_frame offset hf]
    simp only [length_append, length_frame]
    omega

/-- Cutting the torn tail leaves the visited frames, and nothing torn. -/
theorem walkAt_take_stop (offset : Nat) (r : Bytes) :
    (walkAt offset (r.take ((walkAt offset r).stop - offset))).visits = (walkAt offset r).visits ∧
      (walkAt offset (r.take ((walkAt offset r).stop - offset))).torn = false := by
  induction offset, r using frames_induction with
  | nil offset => simp [walkAt_nil]
  | torn offset r hf => simp [walkAt_torn offset hf, walkAt_nil]
  | frame offset r kind body rest hf ih =>
    obtain ⟨hmax, rfl⟩ := readFrame_eq_frame_iff.mp hf
    have hb := walkAt_stop_bounds (offset + (headerSize + body.length)) rest
    have htake : (RelaySpool.frame kind body ++ rest).take
        ((walkAt offset (RelaySpool.frame kind body ++ rest)).stop - offset) =
        RelaySpool.frame kind body ++ rest.take
          ((walkAt (offset + (headerSize + body.length)) rest).stop -
            (offset + (headerSize + body.length))) := by
      rw [walkAt_frame offset hf, take_append, take_of_length_le (by simp; omega)]
      congr 2
      simp
      omega
    have hft : readFrame (RelaySpool.frame kind body ++ rest.take
        ((walkAt (offset + (headerSize + body.length)) rest).stop -
          (offset + (headerSize + body.length)))) = .frame kind body _ :=
      readFrame_eq_frame_iff.mpr ⟨hmax, rfl⟩
    rw [htake, walkAt_frame offset hft, walkAt_frame offset hf]
    simp [ih.1, ih.2]

theorem walk_take_stop (content : Bytes) :
    (walk (content.take (walk content).stop)).visits = (walk content).visits ∧
      Clean (content.take (walk content).stop) :=
  walkAt_take_stop 0 content

/-- A frame read from a part of the bytes is the frame the whole begins with. -/
theorem readFrame_of_take {n : Nat} (h : readFrame (r.take n) = .frame kind body rest) :
    readFrame r = .frame kind body (rest ++ r.drop n) := by
  obtain ⟨hmax, hr⟩ := readFrame_eq_frame_iff.mp h
  refine readFrame_eq_frame_iff.mpr ⟨hmax, ?_⟩
  rw [← append_assoc, ← hr, take_append_drop]

/-- The walk of a part of the file visits the first of its frames. -/
theorem walkAt_take_visits (offset n : Nat) (r : Bytes) :
    (walkAt offset (r.take n)).visits <+: (walkAt offset r).visits := by
  induction offset, r using frames_induction generalizing n with
  | nil offset => simp [walkAt_nil]
  | torn offset r hf =>
    cases hn : readFrame (r.take n) with
    | eof => simp [readFrame_eq_eof_iff.mp hn, walkAt_nil]
    | torn => simp [walkAt_torn offset hn]
    | frame kind body rest => cases hf.symm.trans (readFrame_of_take hn)
  | frame offset r kind body rest hf ih =>
    cases hn : readFrame (r.take n) with
    | eof => simp [readFrame_eq_eof_iff.mp hn, walkAt_nil]
    | torn => simp [walkAt_torn offset hn]
    | frame kind' body' rest' =>
      -- both reads see the same first frame, so the part goes on with a part of the rest
      obtain ⟨rfl, rfl, rfl⟩ := FrameRead.frame.inj (hf.symm.trans (readFrame_of_take hn))
      have hrest := ih rest'.length
      rw [take_left] at hrest
      rw [walkAt_frame offset hn, walkAt_frame offset hf]
      exact cons_prefix_cons.mpr ⟨rfl, hrest⟩

/-- No frame is read from a strict part of one. -/
theorem readFrame_part {n : Nat} {kind' : UInt8} {body' : Bytes}
    (hmax : body.length ≤ maxRecordBytes) (hn : n < (frame kind body).length) :
    readFrame ((frame kind body).take n) ≠ .frame kind' body' rest := by
  intro hr
  -- the whole frame would be read from its part, with nothing left of it behind
  have hf : readFrame (frame kind body) = .frame kind body [] :=
    readFrame_eq_frame_iff.mpr ⟨hmax, (append_nil _).symm⟩
  obtain ⟨-, -, hrest⟩ := FrameRead.frame.inj (hf.symm.trans (readFrame_of_take hr))
  have hdrop := (append_eq_nil_iff.mp hrest.symm).2
  have := drop_eq_nil_iff.mp hdrop
  omega

/-- A strict part of a frame at the end of a clean file says nothing. -/
theorem walk_append_part {n : Nat} (hc : Clean c) (hmax : body.length ≤ maxRecordBytes)
    (hn : n < (frame kind body).length) :
    (walk (c ++ (frame kind body).take n)).visits = (walk c).visits := by
  have hw : walk (c ++ (frame kind body).take n) = _ := walkAt_append _ hc
  have hnone : ∀ offset, (walkAt offset ((frame kind body).take n)).visits = [] := by
    intro offset
    cases hr : readFrame ((frame kind body).take n) with
    | eof => rw [readFrame_eq_eof_iff.mp hr, walkAt_nil]
    | torn => rw [walkAt_torn offset hr]
    | frame kind' body' rest => exact absurd hr (readFrame_part hmax hn)
  rw [hw, hnone, append_nil]
  rfl

/-! ## A segment cut at any byte -/

/-- The frames of a segment, one behind the other. -/
def framesOf (fs : List (UInt8 × Bytes)) : Bytes := fs.flatMap fun f => frame f.1 f.2

/-- The visits of frames that stand one behind the other from an offset on. -/
def visitsFrom : Nat → List (UInt8 × Bytes) → List Visit
  | _, [] => []
  | offset, f :: fs =>
    ⟨f.1, f.2, offset, (frame f.1 f.2).length⟩ :: visitsFrom (offset + (frame f.1 f.2).length) fs

/-- The frames that end at the cut or before it. -/
def wholeBefore : Nat → List (UInt8 × Bytes) → List (UInt8 × Bytes)
  | _, [] => []
  | cut, f :: fs =>
    if (frame f.1 f.2).length ≤ cut then f :: wholeBefore (cut - (frame f.1 f.2).length) fs else []

/-- What a walk over the first bytes of some frames comes to. -/
theorem walkAt_cut {fs : List (UInt8 × Bytes)} (hmax : ∀ f ∈ fs, f.2.length ≤ maxRecordBytes)
    (offset cut : Nat) : ∃ torn, walkAt offset ((framesOf fs).take cut) =
        ⟨visitsFrom offset (wholeBefore cut fs),
          offset + (framesOf (wholeBefore cut fs)).length, torn⟩ ∧
      framesOf (wholeBefore cut fs) <+: (framesOf fs).take cut ∧
      (torn = false → (framesOf fs).take cut = framesOf (wholeBefore cut fs)) := by
  induction fs generalizing offset cut with
  | nil => exact ⟨false, by simp [framesOf, wholeBefore, visitsFrom, walkAt_nil]⟩
  | cons f fs ih =>
    have hf := hmax f mem_cons_self
    have hframes : framesOf (f :: fs) = frame f.1 f.2 ++ framesOf fs := by simp [framesOf]
    rw [hframes, wholeBefore]
    split
    next hcut =>
      obtain ⟨torn, hwalk, hpre, hwhole⟩ := ih (fun f' hf' => hmax f' (mem_cons_of_mem f hf'))
        (offset + (headerSize + f.2.length)) (cut - (frame f.1 f.2).length)
      have hcons : framesOf (f :: wholeBefore (cut - (frame f.1 f.2).length) fs) =
          frame f.1 f.2 ++ framesOf (wholeBefore (cut - (frame f.1 f.2).length) fs) := by
        simp [framesOf]
      rw [take_append, take_of_length_le hcut, hcons]
      refine ⟨torn, ?_, (prefix_append_right_inj _).mpr hpre, fun h => by rw [hwhole h]⟩
      rw [walkAt_frame offset (readFrame_eq_frame_iff.mpr ⟨hf, rfl⟩), hwalk]
      simp [visitsFrom, Nat.add_assoc]
    · have htake : (frame f.1 f.2 ++ framesOf fs).take cut = (frame f.1 f.2).take cut := by
        rw [take_append, Nat.sub_eq_zero_of_le (by omega), take_zero, append_nil]
      rw [htake]
      cases hr : readFrame ((frame f.1 f.2).take cut) with
      | eof =>
        rw [readFrame_eq_eof_iff.mp hr]
        exact ⟨false, by simp [framesOf, visitsFrom, walkAt_nil]⟩
      | torn => exact ⟨true, by simp [framesOf, visitsFrom, walkAt_torn offset hr]⟩
      | frame kind body rest => exact absurd hr (readFrame_part hf (by omega))

theorem readFrame_drop_of_mem {v : Visit} (h : v ∈ (walkAt offset r).visits) :
    offset ≤ v.offset ∧ v.size = headerSize + v.body.length ∧ v.body.length ≤ maxRecordBytes ∧
      ∃ rest, readFrame (r.drop (v.offset - offset)) = .frame v.kind v.body rest := by
  induction offset, r using frames_induction with
  | nil offset => simp [walkAt_nil] at h
  | torn offset r hf => simp [walkAt_torn offset hf] at h
  | frame offset r kind body rest hf ih =>
    rw [walkAt_frame offset hf] at h
    obtain ⟨hmax, rfl⟩ := readFrame_eq_frame_iff.mp hf
    rcases mem_cons.mp h with rfl | h
    · exact ⟨le_refl _, rfl, hmax, rest, by simpa using hf⟩
    obtain ⟨hle, hsize, hbody, rest', hrest⟩ := ih h
    refine ⟨by omega, hsize, hbody, rest', ?_⟩
    rw [drop_append, drop_of_length_le (by simp; omega), length_frame,
      Nat.sub_sub]
    exact hrest

end Flotestro.RelaySpool
