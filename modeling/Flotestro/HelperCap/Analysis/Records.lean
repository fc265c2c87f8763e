import Flotestro.Library.Runs
import Flotestro.HelperCap.Model.Replay

/-!
# The records of the replay store as text

What is read back of a record that was written whole, and what can be read of one that was cut.
-/

set_option autoImplicit false

namespace Flotestro.HelperCap.Replay

open Library List

variable {w c t : Bytes}

theorem ne_newline (hw : newline ∉ w) : ∀ b ∈ w, (b == newline) = false := by
  intro b hb
  rw [beq_eq_false_iff_ne]
  rintro rfl
  exact hw hb

theorem splitOn_line (hw : newline ∉ w) (t : Bytes) :
    (w ++ newline :: t).splitOn newline = w :: t.splitOn newline :=
  splitOnP_append_cons_of_forall_mem (ne_newline hw) newline (beq_self_eq_true newline) t

theorem splitOn_single (hw : newline ∉ w) : w.splitOn newline = [w] :=
  splitOnP_eq_singleton (ne_newline hw)

theorem notMem_of_mem_splitOn (h : w ∈ c.splitOn newline) : newline ∉ w := by
  induction c generalizing w with
  | nil =>
    rw [splitOn_nil, mem_singleton] at h
    rw [h]
    exact not_mem_nil
  | cons b c ih =>
    unfold List.splitOn at h ih
    rw [splitOnP_cons_eq_if_modifyHead] at h
    split at h
    · rcases mem_cons.mp h with rfl | h
      · exact not_mem_nil
      · exact ih h
    next hb =>
      cases hlines : List.splitOnP (· == newline) c with
      | nil =>
        rw [hlines] at h
        cases h
      | cons line lines =>
        rw [hlines] at h ih
        rcases mem_cons.mp h with rfl | h
        · intro hmem
          rcases mem_cons.mp hmem with heq | hmem
          · exact hb (heq ▸ beq_self_eq_true newline)
          · exact ih mem_cons_self hmem
        · exact ih (mem_cons_of_mem _ h)

/-- A beginning of a text either ends in its first line or goes on behind it. -/
theorem splitOn_beginning (hw : newline ∉ w) (h : c <+: w ++ newline :: t) :
    (c <+: w ∧ c.splitOn newline = [c]) ∨
      ∃ d, d <+: t ∧ c.splitOn newline = w :: d.splitOn newline := by
  rcases prefix_or_prefix_of_prefix h (prefix_append w (newline :: t)) with hshort | ⟨d, rfl⟩
  · exact .inl ⟨hshort, splitOn_single fun hmem => hw (hshort.subset hmem)⟩
  have hd := (prefix_append_right_inj w).mp h
  cases d with
  | nil =>
    rw [append_nil]
    exact .inl ⟨prefix_refl w, splitOn_single hw⟩
  | cons b d =>
    obtain ⟨rfl, hrest⟩ := cons_prefix_cons.mp hd
    exact .inr ⟨d, hrest, splitOn_line hw d⟩

theorem newline_notMem_formatInt (x : Int) : newline ∉ formatInt x := fun h =>
  absurd (formatInt_range h).1 (by decide)

theorem newline_notMem_hexEncode (bytes : Bytes) : newline ∉ hexEncode bytes := fun h =>
  absurd (hexEncode_range h) (by decide)

theorem newline_notMem_keptBody (result : Bytes) : newline ∉ keptBody result := by
  unfold keptBody
  split
  · exact newline_notMem_hexEncode result
  · exact not_mem_nil

theorem length_formatInt_le {x : Int} (h : Int64Range x) : (formatInt x).length ≤ 63 := by
  have hdigits : ∀ n : Nat, n ≤ 2 ^ 63 → (decimal n).length ≤ 62 := by
    intro n hn
    unfold decimal
    split
    · decide
    next hne =>
      rw [length_map, length_reverse]
      have hlog : (Nat.digits 10 n).length ≤ 19 := by
        rw [Nat.digits_length_le_iff (by decide)]
        exact Nat.lt_of_le_of_lt hn (by decide)
      omega
  obtain ⟨hlow, hhigh⟩ := h
  have habs : x.natAbs ≤ 2 ^ 63 := by omega
  unfold formatInt
  split
  · rw [length_cons]
    have := hdigits _ habs
    omega
  · have := hdigits _ habs
    omega

/-- **The expiry of a record is read back** from its first line, whatever follows. -/
theorem expiryOf_line {x : Int} (h : Int64Range x) (t : Bytes) :
    expiryOf (formatInt x ++ newline :: t) = some x := by
  have hlength := length_formatInt_le h
  have htake : (formatInt x ++ newline :: t).take 64 =
      formatInt x ++ newline :: t.take (63 - (formatInt x).length) := by
    rw [take_append, take_of_length_le (by omega)]
    have hroom : 64 - (formatInt x).length = (63 - (formatInt x).length) + 1 := by omega
    rw [hroom, take_succ_cons]
  have hline : (formatInt x ++ newline :: t.take (63 - (formatInt x).length)).takeWhile
      (fun b => decide (b ≠ newline)) = formatInt x := by
    rw [takeWhile_append_of_pos]
    · simp
    · intro b hb
      refine decide_eq_true ?_
      rintro rfl
      exact newline_notMem_formatInt x hb
  unfold expiryOf
  split
  next hnil =>
    cases hformat : formatInt x with
    | nil => exact absurd hformat (formatInt_ne_nil x)
    | cons b rest =>
      rw [hformat] at hnil
      cases hnil
  · rw [htake, hline, trimSpace_formatInt, parseInt_formatInt h]

variable {expires : Int} {taskID life body : Bytes}

/-- **What is left of a record that was only reserved is never read as an answer.** -/
theorem answerOf_reserved (htask : newline ∉ taskID) (hlife : newline ∉ life)
    (hc : c <+: effectRecord expires taskID life stateReserved []) (result : Bytes) :
    Store.answerOf (c.splitOn newline) ≠ .kept result := by
  have hstate : newline ∉ stateReserved := by decide
  -- the lines are peeled off one by one; the record may end in any of them
  have hlines : (c.splitOn newline).length < 4 ∨ (c.splitOn newline)[3]? ≠ some stateCompleted := by
    rcases splitOn_beginning (newline_notMem_formatInt expires) hc with ⟨-, h⟩ | ⟨c, hc, h⟩
    · rw [h]
      exact .inl (by simp)
    rw [h]
    rcases splitOn_beginning htask hc with ⟨-, h⟩ | ⟨c, hc, h⟩
    · rw [h]
      exact .inl (by simp)
    rw [h]
    rcases splitOn_beginning hlife hc with ⟨-, h⟩ | ⟨c, hc, h⟩
    · rw [h]
      exact .inl (by simp)
    rw [h]
    rcases splitOn_beginning hstate hc with ⟨hshort, h⟩ | ⟨c, hc, h⟩
    · rw [h]
      refine .inr fun heq => ?_
      obtain rfl : c = stateCompleted := Option.some.inj heq
      exact absurd hshort (by decide)
    · rw [h]
      refine .inr fun heq => ?_
      exact absurd (Option.some.inj heq) (by decide)
  unfold Store.answerOf
  split
  · exact nofun
  next hlength =>
    rw [if_neg (hlines.resolve_left hlength)]
    exact nofun

theorem keptAnswer_keptBody {result kept : Bytes}
    (h : Store.keptAnswer (keptBody result) = .kept kept) : kept = result ∧ result ≠ [] := by
  obtain ⟨hbody, h⟩ := of_else h nofun
  have hlimit : keptBody result = hexEncode result := by
    unfold keptBody at hbody ⊢
    split at hbody
    next hlimit => exact if_pos hlimit
    · exact absurd rfl hbody
  rw [hlimit, hexDecode_hexEncode] at h
  refine ⟨(Reply.kept.inj h).symm, ?_⟩
  rintro rfl
  exact hbody rfl

/-- **The answer of a record that was completed is the result that was kept.** -/
theorem answerOf_completed (htask : newline ∉ taskID) (hlife : newline ∉ life) {result kept : Bytes}
    (h : Store.answerOf
      ((effectRecord expires taskID life stateCompleted (keptBody result)).splitOn newline) =
        .kept kept) : kept = result ∧ result ≠ [] := by
  have hlines : (effectRecord expires taskID life stateCompleted (keptBody result)).splitOn newline =
      [formatInt expires, taskID, life, stateCompleted, keptBody result, []] := by
    unfold effectRecord
    rw [splitOn_line (newline_notMem_formatInt expires), splitOn_line htask, splitOn_line hlife,
      splitOn_line (by decide), splitOn_line (newline_notMem_keptBody result), splitOn_nil]
  have hstate : [formatInt expires, taskID, life, stateCompleted, keptBody result, []][3]? =
      some stateCompleted := rfl
  rw [hlines] at h
  exact keptAnswer_keptBody h

end Flotestro.HelperCap.Replay
