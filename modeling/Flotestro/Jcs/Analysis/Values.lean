import Flotestro.Jcs.Analysis.Numbers
import Flotestro.Jcs.Analysis.Order

/-!
# Strings and values

Every code point is read back from its escape, and so a string from its written form, up to the quote that
ends it.  A written value is read back as the value with the members of its objects in order.  The text of a
value is followed by the end of the input or by what separates or ends a list, and a decoder with
more fuel than the text is long gets through it.
-/

set_option autoImplicit false

namespace Flotestro.Jcs

open Library List

theorem hexValue_hexDigit : ∀ n < 16, hexValue (hexDigit n) = some n := by
  decide

/-- The four digits of a control character are its own. -/
theorem readHex_control {c : Char} (hc : c.toNat < 32) (rest : Chars) :
    readHex ('0' :: '0' :: hexDigit (c.toNat / 16) :: hexDigit (c.toNat % 16) :: rest) =
      some (c.toNat, rest) := by
  have hzero : hexValue '0' = some 0 := by decide
  have hhigh := hexValue_hexDigit (c.toNat / 16) (by omega)
  have hlow := hexValue_hexDigit (c.toNat % 16) (by omega)
  unfold readHex
  simp only [hzero, hhigh, hlow, Option.bind_some, Option.map_some]
  rw [Nat.zero_add, Nat.div_add_mod']

theorem readUnit_of_lt {u : Nat} (hu : u < 0xD800) (rest : Chars) :
    readUnit u rest = (Char.ofNat u, rest) :=
  if_neg fun h => Nat.not_le_of_lt hu h.1

/-- One step of a string gives back the code point whose escape it reads. -/
theorem readBody_escape (n : Nat) (c : Char) (rest : Chars) :
    readBody (n + 1) (escape c ++ rest) = (readBody n rest).map fun r => (c :: r.1, r.2) := by
  unfold escape
  split
  next h =>
    show (if c = '"' then _ else _) = _
    rw [if_neg h.2.1, if_neg h.2.2, if_neg (by omega)]
    rfl
  next h =>
    -- Behind a backslash stands a letter of the table or a code unit.
    split
    next hq => rw [hq]; rfl
    next hq =>
      split
      next hb => rw [hb]; rfl
      next hb =>
        have hsmall : c.toNat < 32 := by
          by_contra hbig
          exact h ⟨by omega, hq, hb⟩
        repeat' split
        next h8 => rw [h8]; rfl
        next ht => rw [ht]; rfl
        next hn => rw [hn]; rfl
        next hf => rw [hf]; rfl
        next hr => rw [hr]; rfl
        · have hread : readEscape ('u' :: '0' :: '0' :: hexDigit (c.toNat / 16) ::
              hexDigit (c.toNat % 16) :: rest) = some (c, rest) := by
            show (readHex ('0' :: '0' :: hexDigit (c.toNat / 16) :: hexDigit (c.toNat % 16) ::
              rest)).map _ = _
            rw [readHex_control hsmall]
            show some (readUnit c.toNat rest) = _
            rw [readUnit_of_lt (by omega), Char.ofNat_toNat]
          show ((readEscape ('u' :: '0' :: '0' :: hexDigit (c.toNat / 16) ::
            hexDigit (c.toNat % 16) :: rest)).bind _) = _
          rw [hread]
          rfl

theorem escape_length (c : Char) : 1 ≤ (escape c).length := by
  unfold escape
  repeat' split
  all_goals exact Nat.le_add_left 1 _

theorem length_le_flatMap_escape (s : Chars) : s.length ≤ (s.flatMap escape).length := by
  induction s with
  | nil => exact Nat.le_refl 0
  | cons c s ih =>
    rw [flatMap_cons, length_append, length_cons]
    have := escape_length c
    omega

theorem readBody_flatMap (s rest : Chars) (n : Nat) (hn : s.length < n) :
    readBody n (s.flatMap escape ++ '"' :: rest) = some (s, rest) := by
  induction s generalizing n with
  | nil =>
    obtain ⟨n, rfl⟩ : ∃ m, n = m + 1 := ⟨n - 1, by omega⟩
    rfl
  | cons c s ih =>
    obtain ⟨n, rfl⟩ : ∃ m, n = m + 1 := ⟨n - 1, by omega⟩
    rw [flatMap_cons, append_assoc, readBody_escape,
      ih n (by rw [length_cons] at hn; omega)]
    rfl

/-- **A string is read back** from behind its opening quote. -/
theorem readString_escaped (s rest : Chars) :
    readString (s.flatMap escape ++ '"' :: rest) = some (s, rest) := by
  apply readBody_flatMap
  rw [length_append, length_cons]
  have := length_le_flatMap_escape s
  omega

/-! ## What is written -/

section

variable {ν : Type} (fmt : ν → Chars)

/-- The text of a value whose numbers are all printed. -/
def written (v : Json ν) : Chars := (write (fun n => some (fmt n)) v).getD []

variable {fmt}

theorem writeItems_eq {items : List (Json ν)}
    (h : ∀ v ∈ items, write (fun n => some (fmt n)) v = some (written fmt v)) :
    writeItems (fun n => some (fmt n)) items = some (items.map (written fmt)) := by
  induction items with
  | nil => rfl
  | cons v items ih =>
    rw [writeItems, h v mem_cons_self, ih fun w hw => h w (mem_cons_of_mem v hw)]
    rfl

theorem writeMembers_eq {members : List (Chars × Json ν)}
    (h : ∀ m ∈ members, write (fun n => some (fmt n)) m.2 = some (written fmt m.2)) :
    writeMembers (fun n => some (fmt n)) members =
      some (members.map fun m => (m.1, written fmt m.2)) := by
  induction members with
  | nil => rfl
  | cons m members ih =>
    rw [writeMembers, h m mem_cons_self, ih fun w hw => h w (mem_cons_of_mem m hw)]
    rfl

theorem write_eq (v : Json ν) : write (fun n => some (fmt n)) v = some (written fmt v) := by
  unfold written
  induction v using Json.induct with
  | hnull | hbool b | hnum n | hstr s => rfl
  | harr items ih => rw [write, writeItems_eq ih]; rfl
  | hobj members ih => rw [write, writeMembers_eq ih]; rfl

theorem written_arr (items : List (Json ν)) :
    written fmt (.arr items) = '[' :: (joinTexts (items.map (written fmt)) ++ [']']) := by
  unfold written
  rw [write, writeItems_eq fun v _ => write_eq v]
  rfl

/-- A member as it is written. -/
def memberText (k t : Chars) : Chars := writeString k ++ ':' :: t

theorem written_obj (members : List (Chars × Json ν)) :
    written fmt (.obj members) = '{' :: (joinTexts ((sortMembers members).map fun m =>
      memberText m.1 (written fmt m.2)) ++ ['}']) := by
  unfold written
  rw [write, writeMembers_eq fun m _ => write_eq m.2, Option.map_some, sortMembers_map,
    map_map]
  rfl

/-- Numbers may be replaced before or while a value is written. -/
theorem write_mapNum {μ : Type} (number : μ → Option Chars) (f : ν → μ) (v : Json ν) :
    write number (v.mapNum f) = write (fun n => number (f n)) v := by
  induction v using Json.induct with
  | hnull | hbool b | hnum n | hstr s => rfl
  | harr items ih =>
    have hitems : writeItems number (items.map (Json.mapNum f)) =
        writeItems (fun n => number (f n)) items := by
      induction items with
      | nil => rfl
      | cons v items ih' =>
        rw [map_cons, writeItems, writeItems, ih v mem_cons_self,
          ih' fun w hw => ih w (mem_cons_of_mem v hw)]
    rw [Json.mapNum, Json.mapNumItems_eq, write, write, hitems]
  | hobj members ih =>
    have hmembers : writeMembers number (members.map fun m => (m.1, m.2.mapNum f)) =
        writeMembers (fun n => number (f n)) members := by
      induction members with
      | nil => rfl
      | cons m members ih' =>
        rw [map_cons, writeMembers, writeMembers, ih m mem_cons_self,
          ih' fun w hw => ih w (mem_cons_of_mem m hw)]
    rw [Json.mapNum, Json.mapNumMembers_eq, write, write, hmembers]

/-- **Values that are equal up to the order of members are written alike.** -/
theorem written_of_same {v w : Json ν} (h : v.Same w) (hv : v.Distinct) : written fmt v = written fmt w := by
  induction h with
  | refl v => rfl
  | symm h ih => exact (ih (h.distinct.mpr hv)).symm
  | trans h h' ih ih' => exact (ih hv).trans (ih' (h.distinct.mp hv))
  | item before after h ih =>
    simp only [Json.Distinct, Json.distinctItems_iff, forall_mem_append,
      forall_mem_cons] at hv
    rw [written_arr, written_arr, map_append, map_append, map_cons, map_cons,
      ih hv.2.1]
  | @member v w before after k h ih =>
    simp only [Json.Distinct, Json.distinctMembers_iff, forall_mem_append,
      forall_mem_cons] at hv
    have hsame : (before ++ (k, v) :: after).map (fun m => (m.1, written fmt m.2)) =
        (before ++ (k, w) :: after).map fun m => (m.1, written fmt m.2) := by
      rw [map_append, map_append, map_cons, map_cons, ih hv.2.2.1]
    unfold written
    rw [write, write, writeMembers_eq fun m _ => write_eq m.2,
      writeMembers_eq fun m _ => write_eq m.2, hsame]
  | perm h =>
    rw [written_obj, written_obj, sortMembers_of_perm hv.1 h]

end

/-! ## Values in order -/

section

variable {ν : Type}

mutual

/-- The value with the members of every object in order. -/
def arrange : Json ν → Json ν
  | .null => .null
  | .bool b => .bool b
  | .num n => .num n
  | .str s => .str s
  | .arr items => .arr (arrangeItems items)
  | .obj members => .obj (sortMembers (arrangeMembers members))

def arrangeItems : List (Json ν) → List (Json ν)
  | [] => []
  | v :: items => arrange v :: arrangeItems items

def arrangeMembers : List (Chars × Json ν) → List (Chars × Json ν)
  | [] => []
  | (k, v) :: members => (k, arrange v) :: arrangeMembers members

end

theorem arrange_arr (items : List (Json ν)) : arrange (.arr items) = .arr (items.map arrange) := by
  rw [arrange]
  congr 1
  induction items with
  | nil => rfl
  | cons v items ih => rw [arrangeItems, ih, map_cons]

theorem arrange_obj (members : List (Chars × Json ν)) :
    arrange (.obj members) = .obj ((sortMembers members).map fun m => (m.1, arrange m.2)) := by
  have hmap : arrangeMembers members = members.map fun m => (m.1, arrange m.2) := by
    induction members with
    | nil => rfl
    | cons m members ih => rw [arrangeMembers, ih, map_cons]
  rw [arrange, hmap, sortMembers_map]

theorem same_arrange (v : Json ν) : v.Same (arrange v) := by
  induction v using Json.induct with
  | hnull | hbool b | hnum n | hstr s => exact .refl _
  | harr items ih =>
    rw [arrange_arr]
    exact Json.Same.arr_map items ih []
  | hobj members ih =>
    have hvalues := Json.Same.obj_map members ih []
    rw [arrange_obj]
    exact hvalues.trans (.perm ((sortMembers_perm members).symm.map _))

/-! ### The members of two objects with the same names -/

theorem eq_of_perm_of_names {α : Type} {l l' : List (Chars × α)} (hperm : l.Perm l')
    (hnames : l.map Prod.fst = l'.map Prod.fst) (hnodup : (l.map Prod.fst).Nodup) : l = l' := by
  induction l generalizing l' with
  | nil => exact hperm.nil_eq
  | cons m l ih =>
    cases l' with
    | nil => exact absurd hnames (cons_ne_nil _ _)
    | cons m' l' =>
      injection hnames with hhead htail
      rw [map_cons, nodup_cons] at hnodup
      have hm : m = m' := by
        rcases mem_cons.mp (hperm.subset mem_cons_self) with h | h
        · exact h
        · -- a second member of this name
          rw [htail] at hnodup
          exact absurd (mem_map_of_mem h) hnodup.1
      rw [hm] at hperm
      rw [hm, ih (perm_cons m' |>.mp hperm) htail hnodup.2]

theorem members_of_arrange_eq {ms ms' : List (Chars × Json ν)}
    (h : arrange (.obj ms) = arrange (.obj ms')) :
    (ms.map fun m => (m.1, arrange m.2)).Perm (ms'.map fun m => (m.1, arrange m.2)) := by
  rw [arrange_obj, arrange_obj] at h
  injection h with h
  have hms := (sortMembers_perm ms).map fun m => (m.1, arrange m.2)
  have hms' := (sortMembers_perm ms').map fun m => (m.1, arrange m.2)
  rw [h] at hms
  exact hms.symm.trans hms'

theorem values_of_arrange_eq {ms ms' : List (Chars × Json ν)}
    (h : arrange (.obj ms) = arrange (.obj ms')) (hnames : ms.map Prod.fst = ms'.map Prod.fst)
    (hnodup : (ms.map Prod.fst).Nodup) :
    (ms.map fun m => (m.1, arrange m.2)) = ms'.map fun m => (m.1, arrange m.2) := by
  apply eq_of_perm_of_names (members_of_arrange_eq h)
  · rw [map_map, map_map]
    exact hnames
  · rw [map_map]
    exact hnodup

end

/-! ## What is read -/

/-- What stands behind a value of a text that was written. -/
def Follows (rest : Chars) : Prop :=
  rest = [] ∨ ∃ c s, rest = c :: s ∧ (c = ',' ∨ c = ']' ∨ c = '}')

theorem follows_cons {c : Char} (s : Chars) (h : c = ',' ∨ c = ']' ∨ c = '}') : Follows (c :: s) :=
  .inr ⟨c, s, rfl, h⟩

theorem Follows.endsNumber {rest : Chars} (h : Follows rest) : EndsNumber rest := by
  rintro c hc
  rcases h with rfl | ⟨c', s, rfl, h⟩
  · cases hc
  · cases hc
    rcases h with rfl | rfl | rfl <;> decide

theorem skip_cons {c : Char} (h : isSpace c = false) (s : Chars) : skip (c :: s) = c :: s :=
  dropWhile_cons_of_neg (by simp [h])

/-- The text is read as the value wherever a value may stand. -/
def Reads (levels : Nat) (t : Chars) (w : Json Parts) : Prop :=
  ∀ n rest, t.length < n → Follows rest → decodeValue n levels (t ++ rest) = some (w, rest)

section

variable {levels : Nat}

theorem Reads.of_succ {t : Chars} {w : Json Parts} (h : ∀ n rest, t.length ≤ n → Follows rest →
    decodeValue (n + 1) levels (t ++ rest) = some (w, rest)) : Reads levels t w := by
  intro n rest hn hrest
  obtain ⟨n, rfl⟩ : ∃ m, n = m + 1 := ⟨n - 1, by omega⟩
  exact h n rest (by omega) hrest

theorem length_le_joinTexts_cons (t : Chars) (ts : List Chars) :
    t.length ≤ (joinTexts (t :: ts)).length := by
  cases ts with
  | nil => exact Nat.le_refl _
  | cons t' ts =>
    rw [joinTexts, length_append]
    omega

/-- Elements joined by commas are read one after the other. -/
theorem decode_join {α β : Type} {text : α → Chars} {g : α → β} {stop : Char}
    {r : Nat → Chars → Option (List β × Chars)} {l : List α} (hne : l ≠ [])
    (hlast : ∀ a ∈ l, ∀ n rest, (text a).length < n →
      r (n + 1) (text a ++ stop :: rest) = some ([g a], rest))
    (hnext : ∀ a ∈ l, ∀ n s bs rest, (text a).length < n → r n s = some (bs, rest) →
      r (n + 1) (text a ++ ',' :: s) = some (g a :: bs, rest))
    (n : Nat) (rest : Chars) (hn : (joinTexts (l.map text)).length + 1 < n) :
    r n (joinTexts (l.map text) ++ stop :: rest) = some (l.map g, rest) := by
  induction l generalizing n with
  | nil => exact absurd rfl hne
  | cons a l ih =>
    obtain ⟨n, rfl⟩ : ∃ m, n = m + 1 := ⟨n - 1, by omega⟩
    have hlen := length_le_joinTexts_cons (text a) (l.map text)
    rw [map_cons] at hn
    cases l with
    | nil => exact hlast a mem_cons_self n rest (by omega)
    | cons b l =>
      have hjoin : joinTexts (text a :: (b :: l).map text) =
          text a ++ ',' :: joinTexts ((b :: l).map text) := rfl
      rw [hjoin, length_append, length_cons] at hn
      have hrest := ih (cons_ne_nil _ _) (fun c hc => hlast c (mem_cons_of_mem a hc))
        (fun c hc => hnext c (mem_cons_of_mem a hc)) n (by omega)
      rw [map_cons, hjoin, append_assoc]
      exact hnext a mem_cons_self n _ _ _ (by omega) hrest

theorem decodeItems_join {α : Type} {t : α → Chars} {g : α → Json Parts} {l : List α} (hne : l ≠ [])
    (hl : ∀ a ∈ l, Reads levels (t a) (g a)) (n : Nat) (rest : Chars)
    (hn : (joinTexts (l.map t)).length + 1 < n) :
    decodeItems n levels (joinTexts (l.map t) ++ ']' :: rest) = some (l.map g, rest) := by
  refine decode_join (r := (decodeItems · levels)) hne (fun a ha n rest hn => ?_)
    (fun a ha n s items rest hn hitems => ?_) n rest hn
  · rw [decodeItems, hl a ha n _ hn (follows_cons rest (.inr (.inl rfl)))]
    rfl
  · rw [decodeItems, hl a ha n _ hn (follows_cons s (.inl rfl))]
    show (decodeItems n levels s).map _ = _
    rw [hitems]
    rfl

theorem readName_memberText (k t rest : Chars) :
    readName (memberText k t ++ rest) = some (k, t ++ rest) := by
  have htext : memberText k t ++ rest = '"' :: (k.flatMap escape ++ '"' :: ':' :: (t ++ rest)) := by
    simp [memberText, writeString]
  rw [htext]
  show (readString (k.flatMap escape ++ '"' :: ':' :: (t ++ rest))).bind _ = _
  rw [readString_escaped]
  rfl

theorem decodeMembers_join {α : Type} {k t : α → Chars} {g : α → Json Parts} {l : List α}
    (hne : l ≠ []) (hl : ∀ a ∈ l, Reads levels (t a) (g a)) (n : Nat) (rest : Chars)
    (hn : (joinTexts (l.map fun a => memberText (k a) (t a))).length + 1 < n) :
    decodeMembers n levels (joinTexts (l.map fun a => memberText (k a) (t a)) ++ '}' :: rest) =
      some (l.map fun a => (k a, g a), rest) := by
  have hlen : ∀ a, (t a).length ≤ (memberText (k a) (t a)).length := by
    intro a
    rw [memberText, length_append, length_cons]
    omega
  refine decode_join (r := (decodeMembers · levels)) hne (fun a ha n rest hn => ?_)
    (fun a ha n s members rest hn hmembers => ?_) n rest hn
  · rw [decodeMembers, readName_memberText]
    show (decodeValue n levels (t a ++ '}' :: rest)).bind _ = _
    rw [hl a ha n _ ((hlen a).trans_lt hn) (follows_cons rest (.inr (.inr rfl)))]
    rfl
  · rw [decodeMembers, readName_memberText]
    show (decodeValue n levels (t a ++ ',' :: s)).bind _ = _
    rw [hl a ha n _ ((hlen a).trans_lt hn) (follows_cons s (.inl rfl))]
    show (decodeMembers n levels s).map _ = _
    rw [hmembers]
    rfl

theorem lastWins_of_nodup {α : Type} {ms : List (Chars × α)} (h : (ms.map Prod.fst).Nodup) :
    lastWins ms = ms := by
  induction ms with
  | nil => rfl
  | cons m ms ih =>
    rw [map_cons, nodup_cons] at h
    rw [lastWins, if_neg h.1, ih h.2]

end

section

variable {ν : Type} {fmt : ν → Chars} {parts : ν → Parts}

/-- A printed number, and the parts it is read as. -/
structure PrintedAs (t : Chars) (p : Parts) : Prop where
  head : ∃ c s, t = c :: s ∧ StartsNumber c
  read : ∀ rest, EndsNumber rest → readNumber (t ++ rest) = some (p, rest)

theorem StartsNumber.ne {c : Char} (h : StartsNumber c) : isSpace c = false ∧ c ≠ '"' ∧ c ≠ '[' ∧
    c ≠ '{' ∧ c ≠ 't' ∧ c ≠ 'f' ∧ c ≠ 'n' ∧ c ≠ ']' := by
  rcases h with rfl | ⟨a, ha, rfl⟩
  · decide
  · revert a
    decide

theorem written_head (hfmt : ∀ n, PrintedAs (fmt n) (parts n)) (v : Json ν) :
    ∃ c s, written fmt v = c :: s ∧ isSpace c = false ∧ c ≠ ']' := by
  cases v with
  | null => exact ⟨'n', _, rfl, by decide, by decide⟩
  | bool b =>
    cases b with
    | true => exact ⟨'t', _, rfl, by decide, by decide⟩
    | false => exact ⟨'f', _, rfl, by decide, by decide⟩
  | num n =>
    obtain ⟨c, s, hs, hc⟩ := (hfmt n).head
    exact ⟨c, s, hs, hc.ne.1, hc.ne.2.2.2.2.2.2.2⟩
  | str s => exact ⟨'"', _, rfl, by decide, by decide⟩
  | arr items => exact ⟨'[', _, written_arr items, by decide, by decide⟩
  | obj members => exact ⟨'{', _, written_obj members, by decide, by decide⟩

theorem joinTexts_cons (t : Chars) (ts : List Chars) : ∃ s, joinTexts (t :: ts) = t ++ s := by
  cases ts with
  | nil => exact ⟨[], (append_nil t).symm⟩
  | cons t' ts => exact ⟨_, rfl⟩

theorem reads_num (hfmt : ∀ n, PrintedAs (fmt n) (parts n)) (n : ν) (levels : Nat) :
    Reads levels (fmt n) (.num (parts n)) := by
  refine .of_succ fun fuel rest _ hrest => ?_
  obtain ⟨c, s, hs, hc⟩ := (hfmt n).head
  obtain ⟨hspace, hquote, hbracket, hbrace, htrue, hfalse, hnull, -⟩ := hc.ne
  have hread := (hfmt n).read rest hrest.endsNumber
  rw [hs, cons_append] at hread ⊢
  rw [decodeValue, skip_cons hspace]
  dsimp only
  rw [if_neg hquote, if_neg hbracket, if_neg hbrace, if_neg htrue, if_neg hfalse, if_neg hnull,
    hread]
  rfl

theorem reads_str (s : Chars) (levels : Nat) : Reads levels (writeString s) (.str s) := by
  refine .of_succ fun fuel rest _ _ => ?_
  have htext : writeString s ++ rest = '"' :: (s.flatMap escape ++ '"' :: rest) := by
    simp [writeString]
  rw [htext, decodeValue]
  show (readString (s.flatMap escape ++ '"' :: rest)).map _ = _
  rw [readString_escaped]
  rfl

theorem reads_arr (hfmt : ∀ n, PrintedAs (fmt n) (parts n)) {items : List (Json ν)} {levels : Nat}
    {g : Json ν → Json Parts} (h : ∀ v ∈ items, Reads levels (written fmt v) (g v)) :
    Reads (levels + 1) (written fmt (.arr items)) (.arr (items.map g)) := by
  refine .of_succ fun fuel rest hfuel _ => ?_
  rw [written_arr] at hfuel ⊢
  rw [cons_append, append_assoc, decodeValue]
  show (if (skip (joinTexts (items.map (written fmt)) ++ ']' :: rest)).head? = some ']' then _ else
    (decodeItems fuel levels (joinTexts (items.map (written fmt)) ++ ']' :: rest)).map _) = _
  cases items with
  | nil => rfl
  | cons v items =>
    obtain ⟨c, s, hs, hspace, hend⟩ := written_head hfmt v
    obtain ⟨s', hs'⟩ := joinTexts_cons (written fmt v) (items.map (written fmt))
    have hhead : (skip (joinTexts ((v :: items).map (written fmt)) ++ ']' :: rest)).head? ≠
        some ']' := by
      rw [map_cons, hs', hs, cons_append, cons_append, skip_cons hspace]
      exact fun h => hend (Option.some.inj h)
    have hread := decodeItems_join (cons_ne_nil _ _) h fuel rest (by
      rw [length_cons, length_append, length_singleton] at hfuel
      omega)
    rw [if_neg hhead, hread]
    rfl

theorem reads_obj {members : List (Chars × Json ν)} {levels : Nat} {g : Json ν → Json Parts}
    (hnodup : (members.map Prod.fst).Nodup)
    (h : ∀ m ∈ members, Reads levels (written fmt m.2) (g m.2)) :
    Reads (levels + 1) (written fmt (.obj members))
      (.obj ((sortMembers members).map fun m => (m.1, g m.2))) := by
  refine .of_succ fun fuel rest hfuel _ => ?_
  have hperm := sortMembers_perm members
  rw [written_obj] at hfuel ⊢
  generalize sortMembers members = sorted at hfuel hperm ⊢
  have hsorted : (sorted.map Prod.fst).Nodup := (hperm.map Prod.fst).nodup_iff.mpr hnodup
  rw [cons_append, append_assoc, decodeValue]
  show (if (skip (joinTexts (sorted.map fun m => memberText m.1 (written fmt m.2)) ++
      '}' :: rest)).head? = some '}' then _ else
    (decodeMembers fuel levels (joinTexts (sorted.map fun m => memberText m.1 (written fmt m.2)) ++
      '}' :: rest)).map _) = _
  cases sorted with
  | nil => rfl
  | cons m sorted =>
    obtain ⟨s', hs'⟩ := joinTexts_cons (memberText m.1 (written fmt m.2))
      (sorted.map fun m => memberText m.1 (written fmt m.2))
    have hhead : (skip (joinTexts ((m :: sorted).map fun m => memberText m.1 (written fmt m.2)) ++
        '}' :: rest)).head? ≠ some '}' := by
      rw [map_cons, hs']
      exact fun h => absurd (Option.some.inj h) (by decide)
    have hread := decodeMembers_join (k := Prod.fst) (cons_ne_nil m sorted)
      (fun m' hm' => h m' (hperm.mem_iff.mp hm')) fuel rest (by
        rw [length_cons, length_append, length_singleton] at hfuel
        omega)
    have hlast : lastWins ((m :: sorted).map fun m => (m.1, g m.2)) =
        (m :: sorted).map fun m => (m.1, g m.2) := by
      apply lastWins_of_nodup
      rw [map_map]
      exact hsorted
    rw [if_neg hhead, hread]
    show some (Json.obj (lastWins _), rest) = _
    rw [hlast]

/-- **A value is read back** with the members of its objects in order, wherever the decoder
goes deep enough. -/
theorem reads_written (hfmt : ∀ n, PrintedAs (fmt n) (parts n)) (v : Json ν) (hv : v.Distinct)
    (levels : Nat) (hlevels : v.depth ≤ levels) :
    Reads levels (written fmt v) ((arrange v).mapNum parts) := by
  induction v using Json.induct generalizing levels with
  | hnull => exact .of_succ fun _ _ _ _ => rfl
  | hbool b =>
    refine .of_succ fun fuel rest _ _ => ?_
    cases b <;> rfl
  | hnum n => exact reads_num hfmt n levels
  | hstr s => exact reads_str s levels
  | harr items ih =>
    rw [Json.Distinct, Json.distinctItems_iff] at hv
    rw [Json.depth] at hlevels
    obtain ⟨levels, rfl⟩ : ∃ l, levels = l + 1 := ⟨levels - 1, by omega⟩
    rw [arrange_arr, Json.mapNum, Json.mapNumItems_eq, map_map]
    apply reads_arr hfmt
    intro v hmem
    have := Json.depth_le_depthItems hmem
    exact ih v hmem (hv v hmem) levels (by omega)
  | hobj members ih =>
    rw [Json.Distinct, Json.distinctMembers_iff] at hv
    rw [Json.depth] at hlevels
    obtain ⟨levels, rfl⟩ : ∃ l, levels = l + 1 := ⟨levels - 1, by omega⟩
    rw [arrange_obj, Json.mapNum, Json.mapNumMembers_eq, map_map]
    apply reads_obj (g := fun v => (arrange v).mapNum parts) hv.1
    intro m hmem
    have := Json.depth_le_depthMembers hmem
    exact ih m hmem (hv.2 m hmem) levels (by omega)

theorem decode_of_reads {levels : Nat} {t : Chars} {w : Json Parts} (h : Reads levels t w) :
    decode levels t = some w := by
  have hread := h (t.length + 1) [] (by omega) (.inl rfl)
  rw [append_nil] at hread
  rw [decode, hread]
  rfl

end

end Flotestro.Jcs
