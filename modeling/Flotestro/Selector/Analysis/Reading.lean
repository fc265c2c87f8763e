import Flotestro.Selector.Interface.Sql

/-!
# The reader reads what the compiler writes

No condition of the table begins like another, so a text that begins with one is read as that one.
`Readable` says that a text is read as a formula whatever follows it; conditions are readable, and so
are negations and joined lists of readable texts.
-/

set_option autoImplicit false

namespace Flotestro.Selector

open Library List

/-! ## Texts that begin differently -/

/-- Two texts differ where both have a byte. -/
def differ : Str → Str → Bool
  | a :: as, b :: bs => a ≠ b || differ as bs
  | _, _ => false

theorem strip_append (a s : Str) : strip a (a ++ s) = some s := by
  induction a with
  | nil => cases s <;> rfl
  | cons b a ih =>
    rw [cons_append, strip, if_pos rfl]
    exact ih

theorem strip_of_differ {a b : Str} (h : differ a b = true) (s : Str) : strip a (b ++ s) = none := by
  induction a generalizing b with
  | nil => cases h
  | cons x a ih =>
    cases b with
    | nil => cases h
    | cons y b =>
      rw [cons_append, strip]
      split
      next hxy => exact ih (by simpa [differ, hxy] using h)
      · rfl

variable (a : Atom)

theorem Atom.mem_all : a ∈ Atom.all := by
  cases a with
  | column c => cases c <;> decide
  | securityUpdates b | rebootRequired b | failedUnits b => cases b <;> decide
  | agentVersion o => cases o <;> decide
  | _ => decide

/-- No condition begins like another, like a negation, or like a parenthesis with a
condition, a negation or a parenthesis after it. -/
theorem table_differs : (Atom.all.all fun a =>
      differ notText a.before && differ a.before (40 :: notText) && differ a.before [40, 40] &&
        Atom.all.all fun b =>
          (a = b || differ a.before b.before) && differ a.before (40 :: b.before)) = true := by
  decide +kernel

theorem Atom.differs : differ notText a.before = true ∧ differ a.before (40 :: notText) = true ∧
      differ a.before [40, 40] = true ∧ ∀ b : Atom, (a ≠ b → differ a.before b.before = true) ∧
        differ a.before (40 :: b.before) = true := by
  have h := all_eq_true.mp table_differs a a.mem_all
  simp only [Bool.and_eq_true, all_eq_true] at h
  refine ⟨h.1.1.1, h.1.1.2, h.1.2, fun b => ⟨fun hne => ?_, (h.2 b b.mem_all).2⟩⟩
  have hb := (h.2 b b.mem_all).1
  rw [decide_eq_false hne] at hb
  exact hb

/-- What follows does not go on with a number. -/
def Follow (rest : Str) : Prop := ∀ b, rest.head? = some b → isDigit b = false

instance decidableFollow (rest : Str) : Decidable (Follow rest) :=
  match rest with
  | [] => .isTrue nofun
  | b :: _ =>
    if h : isDigit b = false then .isTrue fun _ hb => Option.some.inj hb ▸ h
    else .isFalse fun hf => h (hf b rfl)

theorem follow_append {a rest : Str} (ha : Follow a) (hrest : Follow rest) : Follow (a ++ rest) := by
  cases a with
  | nil => exact hrest
  | cons b a => exact ha

/-- The text of a condition with a number for its placeholder. -/
def Atom.render (k : Nat) : Str :=
  match a.template with
  | none => a.before
  | some t => a.before ++ 36 :: decimal k ++ t.after

/-- The placeholder of a condition, where it has one. -/
def Atom.placeholder (k : Nat) : Option Nat := a.template.map fun _ => k

theorem all_isDigit_decimal (k : Nat) : ∀ b ∈ decimal k, isDigit b = true := by
  intro b hb
  obtain ⟨hlow, hhigh⟩ := decimal_range hb
  simp [isDigit, hlow, hhigh]

theorem takeWhile_decimal {k : Nat} {rest : Str} (hrest : Follow rest) :
    (decimal k ++ rest).takeWhile isDigit = decimal k ∧
      (decimal k ++ rest).dropWhile isDigit = rest := by
  have hend : rest.takeWhile isDigit = [] ∧ rest.dropWhile isDigit = rest := by
    cases rest with
    | nil => exact ⟨rfl, rfl⟩
    | cons b rest =>
      have hb := hrest b rfl
      exact ⟨takeWhile_cons_of_neg (by simp [hb]), dropWhile_cons_of_neg (by simp [hb])⟩
  rw [takeWhile_append_of_pos (all_isDigit_decimal k),
    dropWhile_append_of_pos (all_isDigit_decimal k), hend.1, hend.2, append_nil]
  exact ⟨rfl, rfl⟩

theorem readPlaceholder_decimal (k : Nat) {after rest : Str} (hafter : Follow after)
    (hrest : Follow rest) :
    readPlaceholder a after (36 :: decimal k ++ after ++ rest) = some (.atom a (some k), rest) := by
  obtain ⟨htake, hdrop⟩ := takeWhile_decimal (follow_append hafter hrest)
  have hstrip : strip [36] (36 :: decimal k ++ after ++ rest) = some (decimal k ++ (after ++ rest)) := by
    simp [strip]
  unfold readPlaceholder
  rw [hstrip, Option.bind_some, htake, hdrop, parseDecimal_decimal, strip_append]
  rfl

theorem follow_template {a : Atom} {t : Template} (h : a.template = some t) : Follow t.after := by
  have hall : ∀ b ∈ Atom.all, ∀ t, b.template = some t → Follow t.after := by
    intro b hb t ht
    have key : (Atom.all.all fun b =>
        match b.template with
        | none => true
        | some t => decide (Follow t.after)) = true := by decide +kernel
    have := all_eq_true.mp key b hb
    rw [ht] at this
    exact of_decide_eq_true this
  exact hall a a.mem_all t h

theorem readOne_render (k : Nat) {rest : Str} (hrest : Follow rest) :
    readOne a (a.render k ++ rest) = some (.atom a (a.placeholder k), rest) := by
  unfold readOne Atom.render Atom.placeholder
  cases ht : a.template with
  | none =>
    rw [strip_append]
    rfl
  | some t =>
    rw [append_assoc, append_assoc, strip_append]
    have := readPlaceholder_decimal a k (follow_template ht) hrest
    rw [append_assoc] at this
    exact this

theorem render_eq (k : Nat) : ∃ tail, a.render k = a.before ++ tail := by
  unfold Atom.render
  split
  · exact ⟨[], (append_nil _).symm⟩
  · exact ⟨_, append_assoc _ _ _⟩

theorem findSome?_of_unique {α β : Type} {f : α → Option β} {l : List α} {a : α} {b : β}
    (ha : a ∈ l) (hf : f a = some b) (hother : ∀ x ∈ l, x ≠ a → f x = none) :
    l.findSome? f = some b := by
  induction l with
  | nil => cases ha
  | cons x l ih =>
    rw [findSome?_cons]
    by_cases hx : x = a
    · rw [hx, hf]
    · rw [hother x mem_cons_self hx]
      exact ih ((mem_cons.mp ha).resolve_left fun h => hx h.symm)
        fun y hy => hother y (mem_cons_of_mem x hy)

theorem readAtom_render (k : Nat) {rest : Str} (hrest : Follow rest) :
    readAtom (a.render k ++ rest) = some (.atom a (a.placeholder k), rest) := by
  refine findSome?_of_unique a.mem_all (readOne_render a k hrest) fun b _ hb => ?_
  obtain ⟨tail, htail⟩ := render_eq a k
  unfold readOne
  rw [htail, append_assoc, strip_of_differ ((b.differs.2.2.2 a).1 hb)]
  rfl

/-! ## Readable texts -/

/-- A text is read as a formula, whatever follows it. -/
structure Readable (text : Str) (f : Formula) : Prop where
  reads : ∀ n rest, 3 * text.length ≤ n → Follow rest → readNot n (text ++ rest) = some (f, rest)
  /-- Behind a parenthesis the text is not taken for a condition. -/
  opens : ∀ (a : Atom) (rest : Str), strip a.before (40 :: (text ++ rest)) = none
  ne : text ≠ []

theorem Readable.pos {text : Str} {f : Formula} (h : Readable text f) : 0 < text.length :=
  length_pos_of_ne_nil h.ne

theorem Atom.before_ne : a.before ≠ [] := by
  intro h
  have := a.differs.1
  rw [h] at this
  cases this

theorem readable_atom (k : Nat) : Readable (a.render k) (.atom a (a.placeholder k)) := by
  obtain ⟨tail, htail⟩ := render_eq a k
  have hne : a.render k ≠ [] := by
    rw [htail]
    exact fun h => a.before_ne (append_eq_nil_iff.mp h).1
  refine ⟨fun n rest hn hrest => ?_, fun b rest => ?_, hne⟩
  · have hpos := length_pos_of_ne_nil hne
    obtain ⟨n, rfl⟩ : ∃ m, n = m + 1 := ⟨n - 1, by omega⟩
    have hnot : strip notText (a.render k ++ rest) = none := by
      rw [htail, append_assoc]
      exact strip_of_differ a.differs.1 _
    rw [readNot, hnot]
    rw [readAtom_render a k hrest]
  · rw [htail, append_assoc]
    exact strip_of_differ (b.differs.2.2.2 a).2 _

theorem readable_not {text : Str} {f : Formula} (h : Readable text f) :
    Readable (notText ++ text) (.not f) := by
  refine ⟨fun n rest hn hrest => ?_, fun a rest => ?_, ?_⟩
  · have hlen : (notText ++ text).length = text.length + 4 := by
      rfl
    obtain ⟨n, rfl⟩ : ∃ m, n = m + 1 := ⟨n - 1, by omega⟩
    rw [readNot, append_assoc, strip_append]
    dsimp only
    rw [h.reads n rest (by omega) hrest]
    rfl
  · have := strip_of_differ a.differs.2.1 (text ++ rest)
    exact this
  · exact fun hnil => absurd (append_eq_nil_iff.mp hnil).1 (by decide)

/-! ## Joined texts -/

/-- A formula and the ones after it, joined. -/
def conj : Formula → List Formula → Formula
  | f, [] => f
  | f, g :: gs => .and f (conj g gs)

def disj : Formula → List Formula → Formula
  | f, [] => f
  | f, g :: gs => .or f (disj g gs)

section

variable {text : Str} {f : Formula} {texts : List Str} {fs : List Formula} {n : Nat} {rest : Str}

theorem joinTexts_cons (op text text' : Str) (texts : List Str) :
    joinTexts op (text :: text' :: texts) = text ++ (op ++ joinTexts op (text' :: texts)) := by
  rw [joinTexts, append_assoc]

theorem follow_of_ne_nil {a : Str} (hne : a ≠ []) (ha : Follow a) (rest : Str) :
    Follow (a ++ rest) := by
  cases a with
  | nil => exact absurd rfl hne
  | cons b a => exact ha

theorem readAnd_single (h : Readable text f) (hn : 3 * text.length + 1 ≤ n) (hrest : Follow rest)
    (hstop : strip andText rest = none) : readAnd n (text ++ rest) = some (f, rest) := by
  obtain ⟨n, rfl⟩ : ∃ m, n = m + 1 := ⟨n - 1, by omega⟩
  rw [readAnd, h.reads n rest (by omega) hrest, Option.bind_some, hstop]

theorem readAnd_join (h : Readable text f) (hs : Forall₂ Readable texts fs)
    (hn : 3 * (joinTexts andText (text :: texts)).length + 1 ≤ n) (hrest : Follow rest)
    (hstop : strip andText rest = none) :
    readAnd n (joinTexts andText (text :: texts) ++ rest) = some (conj f fs, rest) := by
  induction hs generalizing text f n with
  | nil => exact readAnd_single h hn hrest hstop
  | @cons text' f' texts fs h' _ ih =>
    have hpos := h.pos
    rw [joinTexts_cons] at hn ⊢
    rw [length_append, length_append] at hn
    obtain ⟨n, rfl⟩ : ∃ m, n = m + 1 := ⟨n - 1, by omega⟩
    rw [readAnd, append_assoc, append_assoc,
      h.reads n _ (by omega) (follow_of_ne_nil (by decide) (by decide) _), Option.bind_some]
    rw [strip_append]
    dsimp only
    rw [ih h' (by omega)]
    rfl

theorem readOr_join (h : Readable text f) (hs : Forall₂ Readable texts fs)
    (hn : 3 * (joinTexts orText (text :: texts)).length + 2 ≤ n) (hrest : Follow rest)
    (hand : strip andText rest = none) (hor : strip orText rest = none) :
    readOr n (joinTexts orText (text :: texts) ++ rest) = some (disj f fs, rest) := by
  induction hs generalizing text f n with
  | nil =>
    obtain ⟨n, rfl⟩ : ∃ m, n = m + 1 := ⟨n - 1, by omega⟩
    rw [readOr, show joinTexts orText [text] = text from rfl] at *
    rw [readAnd_single h (by omega) hrest hand, Option.bind_some, hor]
    rfl
  | @cons text' f' texts fs h' _ ih =>
    have hpos := h.pos
    rw [joinTexts_cons] at hn ⊢
    rw [length_append, length_append] at hn
    obtain ⟨n, rfl⟩ : ∃ m, n = m + 1 := ⟨n - 1, by omega⟩
    have hstop : strip andText (orText ++ (joinTexts orText (text' :: texts) ++ rest)) = none :=
      strip_of_differ (by decide) _
    rw [readOr, append_assoc, append_assoc,
      readAnd_single h (by omega) (follow_of_ne_nil (by decide) (by decide) _) hstop,
      Option.bind_some]
    rw [strip_append]
    dsimp only
    rw [ih h' (by omega)]
    rfl

theorem readable_parentheses {body : Str} {g : Formula} (h : Readable text f) {tail : Str}
    (hbody : body = text ++ tail)
    (hreads : ∀ n rest, 3 * body.length + 2 ≤ n → readOr n (body ++ 41 :: rest) = some (g, 41 :: rest)) :
    Readable (40 :: body ++ [41]) g := by
  have hlen : (40 :: body ++ [41]).length = body.length + 2 := by simp
  refine ⟨fun n rest hn _ => ?_, fun a rest => ?_, by simp⟩
  · obtain ⟨n, rfl⟩ : ∃ m, n = m + 1 := ⟨n - 1, by omega⟩
    have hshape : 40 :: body ++ [41] ++ rest = 40 :: (body ++ 41 :: rest) := by simp
    have hatom : readAtom (40 :: (body ++ 41 :: rest)) = none := by
      unfold readAtom
      rw [findSome?_eq_none_iff]
      intro a _
      unfold readOne
      rw [hbody, append_assoc, h.opens a]
      rfl
    have hnot : strip notText (40 :: (body ++ 41 :: rest)) = none :=
      strip_of_differ (b := [40]) (by decide) _
    have hopen : strip [40] (40 :: (body ++ 41 :: rest)) = some (body ++ 41 :: rest) := by
      exact strip_append [] _
    rw [hshape, readNot]
    rw [hatom]
    rw [hopen]
    dsimp only
    rw [hreads n rest (by omega)]
    rfl
  · exact strip_of_differ a.differs.2.2.1 _

theorem joinTexts_eq_append (op text : Str) (texts : List Str) :
    ∃ tail, joinTexts op (text :: texts) = text ++ tail := by
  cases texts with
  | nil => exact ⟨[], (append_nil text).symm⟩
  | cons text' texts => exact ⟨_, joinTexts_cons op text text' texts⟩

theorem readable_all (h : Readable text f) (hs : Forall₂ Readable texts fs) :
    Readable (40 :: joinTexts andText (text :: texts) ++ [41]) (conj f fs) := by
  obtain ⟨tail, htail⟩ := joinTexts_eq_append andText text texts
  refine readable_parentheses h htail fun n rest hn => ?_
  obtain ⟨n, rfl⟩ : ∃ m, n = m + 1 := ⟨n - 1, by omega⟩
  have hand : strip andText (41 :: rest) = none := strip_of_differ (b := [41]) (by decide) rest
  have hor : strip orText (41 :: rest) = none := strip_of_differ (b := [41]) (by decide) rest
  have hfollow : Follow (41 :: rest) := follow_of_ne_nil (a := [41]) (by decide) (by decide) rest
  rw [readOr, readAnd_join h hs (by omega) hfollow hand, Option.bind_some]
  rw [hor]

theorem readable_any (h : Readable text f) (hs : Forall₂ Readable texts fs) :
    Readable (40 :: joinTexts orText (text :: texts) ++ [41]) (disj f fs) := by
  obtain ⟨tail, htail⟩ := joinTexts_eq_append orText text texts
  refine readable_parentheses h htail fun n rest hn => ?_
  exact readOr_join h hs hn (follow_of_ne_nil (a := [41]) (by decide) (by decide) rest)
    (strip_of_differ (b := [41]) (by decide) rest) (strip_of_differ (b := [41]) (by decide) rest)

end

end Flotestro.Selector
