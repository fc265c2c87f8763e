import Flotestro.Library.Tables
import Flotestro.Schedules.Analysis.Grammar
import Mathlib.Data.Int.Interval

/-!
# The calendar of a timer

The calendar text of an expression, read with the meaning systemd gives it, matches the minutes that
cron matches.
-/

set_option autoImplicit false

namespace Flotestro.Schedules

open Library List

variable {a : Finset Int} {e : Expression} {max min n v : Int} {field s : Runes} {c sep : Rune}
  {values : List Int} {ws : List Runes} {m : Moment}

/-! ## What systemd reads -/

/-- A list of numbers, or all of them. -/
def Names (s : Runes) (v : Int) : Prop :=
  s = runes "*" ∨ some v ∈ (Runes.split (.char ',') s).map natural

def NamesAll (sep : Rune) (s : Runes) (values : List Int) : Prop :=
  Forall₂ Names (Runes.split sep s) values

def Moment.date (m : Moment) : List Int := [m.year, m.month, m.day]

def Moment.time (m : Moment) : List Int := [m.hour, m.minute, 0]

/-- Days of the week, where there are any, a date and a time, all of them required. -/
def OnCalendar (text : Runes) (m : Moment) : Prop :=
  let day := (weekdayNames[m.weekday.toNat]?).getD []
  match Runes.split (.char ' ') text with
  | [date, time] => NamesAll (.char '-') date m.date ∧ NamesAll (.char ':') time m.time
  | [days, date, time] => day ∈ Runes.split (.char ',') days ∧
      NamesAll (.char '-') date m.date ∧ NamesAll (.char ':') time m.time
  | _ => False

theorem split_join (hne : ws ≠ []) (h : ∀ w ∈ ws, sep ∉ w) :
    Runes.split sep (Words.join sep ws) = ws := by
  induction ws with
  | nil => exact absurd rfl hne
  | cons w ws ih =>
    rw [forall_mem_cons] at h
    cases ws with
    | nil => exact Runes.split_self h.1
    | cons w' ws => rw [Words.join, Runes.split_append h.1, ih (cons_ne_nil _ _) h.2]

theorem notMem_join (hne : c ≠ sep) (h : ∀ w ∈ ws, c ∉ w) : c ∉ Words.join sep ws := by
  intro hmem
  rcases Words.mem_join hmem with heq | ⟨w, hw, hc⟩
  · exact hne heq
  · exact h w hw hc

/-- What the parser gives for a field. -/
structure Ranged (min max : Int) (a : Finset Int) : Prop where
  nonempty : a.Nonempty
  within : ∀ v ∈ a, min ≤ v ∧ v ≤ max

theorem twoDigits_spec (hmin : 0 ≤ n) (hmax : n ≤ 59) :
    natural (twoDigits n) = some n ∧ ∀ c ∈ twoDigits n, c ∈ runes "0123456789" := by
  have hall : ∀ k : Fin 60, natural (twoDigits (k.val : Int)) = some (k.val : Int) ∧
      ∀ c ∈ twoDigits (k.val : Int), c ∈ runes "0123456789" := by decide
  lift n to ℕ using hmin
  exact hall ⟨n, by omega⟩

theorem ranged_parseField (h : parseField field min max = .ok a) : Ranged min max a := by
  obtain ⟨hread, hlisted⟩ := parseField_eq_ok_iff.mp h
  constructor
  · obtain ⟨part, hpart⟩ := exists_mem_of_ne_nil _ (Runes.split_ne_nil (.char ',') field)
    obtain ⟨i, hi⟩ := hread part hpart
    exact ⟨i.1, (hlisted _).mpr ⟨part, hpart, i, hi, le_rfl, hi.spec.1.2.1, by simp⟩⟩
  · intro v hv
    obtain ⟨part, -, i, hi, hfirst, hlast, -⟩ := (hlisted v).mp hv
    obtain ⟨⟨hmin, -, hmax⟩, -⟩ := hi.spec
    exact ⟨hmin.trans hfirst, hlast.trans hmax⟩

/-! ## Days of the week -/

def dayName (day : Nat) : Runes := (weekdayNames[day]?).getD []

theorem dayName_spec : ∀ i : Fin 7, (∀ j : Fin 7, dayName i = dayName j → i = j) ∧
    .char ',' ∉ dayName i ∧ .char ' ' ∉ dayName i := by
  decide

theorem mem_weekdays {w : Runes} :
    w ∈ weekdays values ↔ ∃ value ∈ values, dayName (value % 7).toNat = w := by
  simp [weekdays, dayName]

theorem dayName_mem_of_length (hall : (weekdays values).length = 7) (hv : 0 ≤ v ∧ v ≤ 6) :
    dayName v.toNat ∈ weekdays values := by
  rw [weekdays, length_map, length_reverse] at hall
  have hsub : (values.map fun value => (value % 7).toNat).reverse.dedup ⊆ range 7 := by
    intro d hd
    rw [mem_dedup, mem_reverse] at hd
    obtain ⟨value, -, rfl⟩ := mem_map.mp hd
    exact mem_range.mpr (by omega)
  have hperm := ((nodup_dedup _).subperm hsub).perm_of_length_le (by rw [hall, length_range])
  refine mem_map_of_mem (mem_reverse.mpr (hperm.mem_iff.mpr (mem_range.mpr ?_)))
  omega

/-- What the parser gives for an expression. -/
structure Parsed (e : Expression) : Prop where
  ranged : ∀ (i : Nat) (r : Int × Int), ranges[i]? = some r → Ranged r.1 r.2 ((e.allowed[i]?).getD ∅)
  sunday : 7 ∈ (e.allowed[4]?).getD ∅ → 0 ∈ (e.allowed[4]?).getD ∅
  everyDay : e.dayOfMonthStar = true → ∀ v : Int, 1 ≤ v ∧ v ≤ 31 → e.allows 2 v = true
  everyWeekday : e.dayOfWeekStar = true → ∀ v : Int, 0 ≤ v ∧ v ≤ 6 → e.allows 4 v = true

theorem mem_values {i : Nat} : v ∈ e.values i ↔ e.allows i v = true := by
  rw [Expression.values, Finset.mem_sort, Expression.allows, decide_eq_true_iff]

theorem parseNumbered_ok {n : (Runes × (Int × Int)) × Nat} {values : Finset Int}
    (h : parseNumbered n = .ok values) : parseField n.1.1 n.1.2.1 n.1.2.2 = .ok values := by
  unfold parseNumbered at h
  split at h
  next hfield =>
    cases h
    exact hfield
  · cases h

theorem parsed_parseExpression (h : parseExpression s = .ok e) : Parsed e := by
  have hall : ∀ r ∈ ranges, parseField (runes "*") r.1 r.2 = .ok (Finset.Icc r.1 r.2) := by decide
  obtain ⟨-, h⟩ := of_else h nofun
  obtain ⟨hlen, h⟩ := of_else h nofun
  replace hlen := not_not.mp hlen
  generalize Runes.fields (expand (Runes.trimSpace s)) = fields at h hlen
  split at h
  next allowed hallowed =>
    rcases fields with _ | ⟨f₀, _ | ⟨f₁, _ | ⟨f₂, _ | ⟨f₃, _ | ⟨f₄, _ | ⟨f₅, rest⟩⟩⟩⟩⟩⟩
    all_goals try cases hlen
    obtain _ | ⟨h₀, _ | ⟨h₁, _ | ⟨h₂, _ | ⟨h₃, _ | ⟨h₄, _ | _⟩⟩⟩⟩⟩ := mapM_eq_ok_iff.mp hallowed
    obtain rfl := Except.ok.inj h
    replace h₂ := parseNumbered_ok h₂
    replace h₄ := parseNumbered_ok h₄
    refine ⟨fun i r hr => ?_, ?_, fun hstar v hv => ?_, fun hstar v hv => ?_⟩
    · rcases i with _ | _ | _ | _ | _ | i
      all_goals cases hr
      · exact ranged_parseField (parseNumbered_ok h₀)
      · exact ranged_parseField (parseNumbered_ok h₁)
      · exact ranged_parseField h₂
      · exact ranged_parseField (parseNumbered_ok h₃)
      · obtain ⟨hne, hin⟩ := ranged_parseField h₄
        change Ranged 0 7 (if 7 ∈ _ then insert 0 _ else _)
        split
        · exact ⟨Finset.insert_nonempty 0 _, Finset.forall_mem_insert .. |>.mpr ⟨by decide, hin⟩⟩
        · exact ⟨hne, hin⟩
    · change 7 ∈ (if 7 ∈ _ then insert 0 _ else _) → 0 ∈ (if 7 ∈ _ then insert 0 _ else _)
      split
      · exact fun _ => Finset.mem_insert_self 0 _
      next hno => exact fun hseven => absurd hseven hno
    · obtain rfl : f₂ = runes "*" := by simpa using hstar
      cases h₂
      exact decide_eq_true (Finset.mem_Icc.mpr hv)
    · obtain rfl : f₄ = runes "*" := by simpa using hstar
      rw [hall (0, 7) (by decide)] at h₄
      cases h₄
      exact decide_eq_true (Finset.mem_insert_of_mem (Finset.mem_Icc.mpr ⟨hv.1, by omega⟩))
  · cases h

section
variable (h : Parsed e)
include h

/-- A component holds no separator, and it names the values of its field. -/
theorem Parsed.component {i : Nat} {r : Int × Int} (hr : ranges[i]? = some r) :
    (∀ c ∈ e.component i, c ∈ runes "*,0123456789") ∧
      ∀ v, r.1 ≤ v ∧ v ≤ r.2 → (Names (e.component i) v ↔ e.allows i v = true) := by
  obtain ⟨hmin, hmax⟩ := (by decide : ∀ r ∈ ranges, 0 ≤ r.1 ∧ r.2 ≤ 59) r (mem_of_getElem? hr)
  have hranged := h.ranged i r hr
  simp only [Expression.component, hr, Option.getD_some, ← mem_values]
  unfold Schedules.component
  split
  next hfull =>
    refine ⟨fun c hc => mem_of_mem_take (i := 1) hc, fun v hv => iff_of_true (.inl rfl) ?_⟩
    have hall : (e.allowed[i]?).getD ∅ = Finset.Icc r.1 r.2 := by
      refine Finset.eq_of_subset_of_card_le (fun v hv => Finset.mem_Icc.mpr (hranged.within v hv)) ?_
      rw [Expression.values, Finset.length_sort] at hfull
      rw [Int.card_Icc]
      omega
    rw [mem_values, Expression.allows, hall]
    exact decide_eq_true (Finset.mem_Icc.mpr hv)
  · have hspec : ∀ n ∈ e.values i, natural (twoDigits n) = some n ∧
        ∀ c ∈ twoDigits n, c ∈ runes "0123456789" := by
      intro n hn
      obtain ⟨hlow, hhigh⟩ := hranged.within n (of_decide_eq_true (mem_values.mp hn))
      exact twoDigits_spec (by omega) (by omega)
    generalize hnumbers : (e.values i).map twoDigits = numbers
    have hrunes : ∀ w ∈ numbers, ∀ c ∈ w, c ∈ runes "0123456789" := by
      rw [← hnumbers, forall_mem_map]
      exact fun n hn => (hspec n hn).2
    refine ⟨fun c hc => ?_, fun v _ => ?_⟩
    · rcases Words.mem_join hc with rfl | ⟨w, hw, hc⟩
      · decide
      · exact mem_of_mem_drop (i := 2) (hrunes w hw c hc)
    have hstar : joinComma numbers ≠ runes "*" := by
      intro heq
      have hno : Rune.char '*' ∉ joinComma numbers :=
        notMem_join (by decide) fun w hw hc => absurd (hrunes w hw _ hc) (by decide)
      exact hno (by rw [heq]; decide)
    have hne : numbers ≠ [] := by
      obtain ⟨n, hn⟩ := hranged.nonempty
      exact hnumbers ▸ ne_nil_of_mem (mem_map_of_mem (mem_values.mpr (decide_eq_true hn)))
    have hread : numbers.map natural = (e.values i).map some := by
      rw [← hnumbers, map_map]
      exact map_congr_left fun n hn => (hspec n hn).1
    rw [Names, or_iff_right hstar, joinComma,
      split_join hne fun w hw hc => absurd (hrunes w hw _ hc) (by decide), hread]
    simp

/-- The names of the days stand for the days, of which Sunday has two numbers. -/
theorem Parsed.dayName_mem_weekdays (hv : 0 ≤ v ∧ v ≤ 6) :
    dayName v.toNat ∈ weekdays (e.values 4) ↔ e.allows 4 v = true := by
  rw [mem_weekdays]
  constructor
  · rintro ⟨value, hvalue, hname⟩
    have heq := (dayName_spec ⟨(value % 7).toNat, by omega⟩).1 ⟨v.toNat, by omega⟩ hname
    have heq : (value % 7).toNat = v.toNat := Fin.mk.inj heq
    replace hvalue := mem_values.mp hvalue
    obtain ⟨hlow, hhigh⟩ := (h.ranged 4 (0, 7) rfl).within value (of_decide_eq_true hvalue)
    by_cases hseven : value = 7
    · subst hseven
      obtain rfl : v = 0 := by omega
      exact decide_eq_true (h.sunday (of_decide_eq_true hvalue))
    · obtain rfl : v = value := by omega
      exact hvalue
  · intro hmem
    exact ⟨v, mem_values.mpr hmem, by rw [Int.emod_eq_of_lt hv.1 (by omega)]⟩

theorem Parsed.weekdays_ne_nil : weekdays (e.values 4) ≠ [] := by
  obtain ⟨v, hv⟩ := (h.ranged 4 (0, 7) rfl).nonempty
  exact ne_nil_of_mem (mem_weekdays.mpr ⟨v, mem_values.mpr (decide_eq_true hv), rfl⟩)

theorem matches_iff (hstar : ¬(e.dayOfMonthStar = false ∧ e.dayOfWeekStar = false)) :
    e.matches m = true ↔ e.allows 4 m.weekday = true ∧
      (e.allows 3 m.month = true ∧ e.allows 2 m.day = true) ∧
        e.allows 1 m.hour = true ∧ e.allows 0 m.minute = true := by
  have hday := fun hd => h.everyDay hd m.day m.ranged.2.2.1
  have hweekday := fun hd => h.everyWeekday hd m.weekday m.ranged.2.2.2.2
  unfold Expression.matches
  cases hd : e.dayOfMonthStar <;> cases hw : e.dayOfWeekStar <;> simp_all <;> tauto

def Expression.date (e : Expression) : List Runes := [runes "*", e.component 3, e.component 2]

def Expression.time (e : Expression) : List Runes := [e.component 1, e.component 0, runes "00"]

theorem Parsed.notMem (hc : c ∉ runes "*,0123456789") :
    (∀ w ∈ e.date, c ∉ w) ∧ ∀ w ∈ e.time, c ∉ w := by
  have hcomponent (i : Nat) {r : Int × Int} (hr : ranges[i]? = some r) : c ∉ e.component i :=
    fun hmem => hc ((h.component hr).1 c hmem)
  have hstar : c ∉ runes "*" := fun hmem => hc (mem_of_mem_take (i := 1) hmem)
  have hzero : c ∉ runes "00" :=
    fun hmem => hc ((by decide : ∀ c ∈ runes "00", c ∈ runes "*,0123456789") c hmem)
  simp [Expression.date, Expression.time, hstar, hzero, hcomponent 0 rfl, hcomponent 1 rfl,
    hcomponent 2 rfl, hcomponent 3 rfl]

theorem Parsed.namesAll_date : NamesAll (.char '-') (Words.join (.char '-') e.date) m.date ↔
    e.allows 3 m.month = true ∧ e.allows 2 m.day = true := by
  obtain ⟨-, -, hday, hmonth, -⟩ := m.ranged
  rw [NamesAll, split_join (by simp [Expression.date]) (h.notMem (by decide)).1]
  have hyear : Names (runes "*") m.year := .inl rfl
  simp [Expression.date, Moment.date, hyear, (h.component (i := 3) rfl).2 m.month hmonth,
    (h.component (i := 2) rfl).2 m.day hday]

theorem Parsed.namesAll_time : NamesAll (.char ':') (Words.join (.char ':') e.time) m.time ↔
    e.allows 1 m.hour = true ∧ e.allows 0 m.minute = true := by
  obtain ⟨hminute, hhour, -⟩ := m.ranged
  rw [NamesAll, split_join (by simp [Expression.time]) (h.notMem (by decide)).2]
  have hsecond : Names (runes "00") 0 := .inr (by decide)
  simp [Expression.time, Moment.time, hsecond, (h.component (i := 1) rfl).2 m.hour hhour,
    (h.component (i := 0) rfl).2 m.minute hminute]

end

/-- **A timer runs when cron would.** -/
theorem calendar_reads (hparse : parseExpression s = .ok e) :
    (∀ text, e.calendar = some text → ∀ m, OnCalendar text m ↔ e.matches m = true) ∧
      (e.calendar = none ↔ e.dayOfMonthStar = false ∧ e.dayOfWeekStar = false) := by
  have h := parsed_parseExpression hparse
  constructor
  · intro text htext m
    obtain ⟨hstar, htext⟩ := of_else htext nofun
    have hsome := h.weekdays_ne_nil
    have hday := h.dayName_mem_weekdays m.ranged.2.2.2.2
    rw [matches_iff h hstar, ← h.namesAll_date, ← h.namesAll_time]
    have hdate : .char ' ' ∉ Words.join (.char '-') e.date :=
      notMem_join (by decide) (h.notMem (by decide)).1
    have htime : .char ' ' ∉ Words.join (.char ':') e.time :=
      notMem_join (by decide) (h.notMem (by decide)).2
    have hcalendar : runes "*-" ++ e.component 3 ++ runes "-" ++ e.component 2 ++ runes " " ++
        e.component 1 ++ runes ":" ++ e.component 0 ++ runes ":00" = Words.join (.char ' ')
          [Words.join (.char '-') e.date, Words.join (.char ':') e.time] := by
      simp [Expression.date, Expression.time, Words.join, runes]
    dsimp only at htext
    rw [hcalendar] at htext
    generalize Words.join (.char '-') e.date = date at hdate htext ⊢
    generalize Words.join (.char ':') e.time = time at htime htext ⊢
    have hevery (hallows : e.allows 4 m.weekday = true) :
        OnCalendar (Words.join (.char ' ') [date, time]) m ↔ e.allows 4 m.weekday = true ∧
          NamesAll (.char '-') date m.date ∧ NamesAll (.char ':') time m.time := by
      rw [OnCalendar, split_join (cons_ne_nil _ _) (by simp [hdate, htime])]
      exact (and_iff_right hallows).symm
    split at htext
    next hstar =>
      cases htext
      exact hevery (h.everyWeekday hstar _ m.ranged.2.2.2.2)
    split at htext
    next hall =>
      cases htext
      refine hevery (hday.mp (dayName_mem_of_length (hall.resolve_left ?_) m.ranged.2.2.2.2))
      exact fun hzero => hsome (eq_nil_of_length_eq_zero hzero)
    · cases htext
      have hnames : ∀ w ∈ weekdays (e.values 4), .char ',' ∉ w ∧ .char ' ' ∉ w := by
        intro w hw
        obtain ⟨value, -, rfl⟩ := mem_weekdays.mp hw
        exact (dayName_spec ⟨(value % 7).toNat, by omega⟩).2
      have hdays : .char ' ' ∉ joinComma (weekdays (e.values 4)) :=
        notMem_join (by decide) fun w hw => (hnames w hw).2
      have hjoin : joinComma (weekdays (e.values 4)) ++ runes " " ++ Words.join (.char ' ') [date, time] =
          Words.join (.char ' ') [joinComma (weekdays (e.values 4)), date, time] := by
        simp [Words.join, runes]
      rw [hjoin, OnCalendar, split_join (cons_ne_nil _ _) (by simp [hdays, hdate, htime]), ← hday]
      dsimp only
      rw [joinComma, split_join hsome fun w hw => (hnames w hw).1]
      rfl
  · constructor
    · intro hnone
      by_contra hstar
      rw [Expression.calendar, if_neg hstar] at hnone
      dsimp only at hnone
      split at hnone
      · cases hnone
      · split at hnone <;> cases hnone
    · exact fun hboth => if_pos hboth

theorem calendar_reads_workdays : ∃ e text, parseExpression (runes "30 6 * * 1-5") = .ok e ∧
    e.calendar = some text ∧ ∀ m, OnCalendar text m ↔ e.matches m = true := by
  obtain ⟨e, he, hstar⟩ : ∃ e, parseExpression (runes "30 6 * * 1-5") = .ok e ∧
      e.dayOfMonthStar = true := ⟨_, rfl, rfl⟩
  obtain ⟨hreads, hnone⟩ := calendar_reads he
  cases htext : e.calendar with
  | none => simp [hnone.mp htext] at hstar
  | some text => exact ⟨e, text, he, htext, hreads text htext⟩

end Flotestro.Schedules
