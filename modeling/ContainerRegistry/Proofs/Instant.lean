/-
# An instant is read back from its text

The start time of an upload is kept as a text. The calendar has a date for every day
and finds the day of it again (`Calendar.toDay_ofDay`): the year of a day within an era
grows with the day, so that it is settled by the first days of the 400 years. The digits of
a date and of a time of day are read as the numbers that were written, also those of a
fraction that is shown in three or six digits. So an instant whose year has four digits is
read back from its text, whatever its fraction, and also if it lies in a leap second.

Key definitions: `Instant.IsCivil`.
Key theorems: `Calendar.toDay_ofDay`, `Calendar.isValid_ofDay`, `Instant.digits_padded`,
`Instant.fractionText_append`, `Instant.parse_toOffsetText`, `Instant.startOfContent_ofText`.
-/
import Mathlib.Algebra.Group.Nat.Defs
import Mathlib.Order.Monotone.Basic
import Mathlib.Order.Nat
import ContainerRegistry.Proofs.Grammar
import ContainerRegistry.Registry.Upload

namespace ContainerRegistry

namespace Calendar

/-- The days of an era before one of its years. -/
def daysBefore (year : Nat) : Nat :=
  365 * year + year / 4 - year / 100

/-- The days of an era before a day, leap days aside. -/
def commonDays (day : Nat) : Nat :=
  day - day / 1460 + day / 36524 - day / 146096

/-- The year of an era that a day lies in. -/
def yearOf (day : Nat) : Nat :=
  commonDays day / 365

theorem yearOf_monotone : Monotone yearOf :=
  monotone_nat_of_le_succ fun day => by
    unfold yearOf commonDays
    omega

theorem yearOf_bounds : ∀ year < 400, yearOf (daysBefore year) = year ∧
    (0 < year → yearOf (daysBefore year - 1) < year) := by
  decide +kernel

theorem yearOf_last : yearOf 146096 = 399 := by decide

/-- A day lies between the first days of its year and of the next. -/
theorem daysBefore_yearOf {day : Nat} (h : day < 146097) :
    yearOf day < 400 ∧ daysBefore (yearOf day) ≤ day ∧
      (yearOf day < 399 → day < daysBefore (yearOf day + 1)) := by
  have hlt : yearOf day < 400 := by
    have : yearOf day ≤ yearOf 146096 := yearOf_monotone (by omega)
    rw [yearOf_last] at this
    omega
  refine ⟨hlt, Nat.le_of_not_lt fun hbefore => ?_, fun hnext => Nat.lt_of_not_le fun hafter => ?_⟩
  · have hpos : 0 < yearOf day := by
      rcases Nat.eq_zero_or_pos (yearOf day) with hzero | hpos
      · rw [hzero] at hbefore
        exact absurd hbefore (Nat.not_lt_zero _)
      · exact hpos
    have : yearOf day ≤ yearOf (daysBefore (yearOf day) - 1) := yearOf_monotone (by omega)
    have := (yearOf_bounds (yearOf day) hlt).2 hpos
    omega
  · have : yearOf (daysBefore (yearOf day + 1)) ≤ yearOf day := yearOf_monotone hafter
    have := (yearOf_bounds (yearOf day + 1) (by omega)).1
    omega

/-- The month that is the given one counted from March. -/
def civil (month : Nat) : Nat :=
  if month < 10 then month + 3 else month - 9

/-- The month that a day of a year lies in, counted from March. -/
theorem month_bounds : ∀ of < 366, (5 * of + 2) / 153 ≤ 11 ∧
    (153 * ((5 * of + 2) / 153) + 2) / 5 ≤ of ∧
    of < (153 * ((5 * of + 2) / 153) + 2) / 5 +
      daysIn (if of = 365 then 0 else 1) (civil ((5 * of + 2) / 153)) := by
  decide +kernel

theorem daysIn_le (year : Int) (month : Nat) : daysIn 1 month ≤ daysIn year month := by
  have hcommon : isLeap 1 = false := rfl
  simp only [daysIn, hcommon, Bool.false_eq_true, if_false]
  split
  · split <;> decide
  · exact Nat.le_refl _

theorem daysIn_of_isLeap {year : Int} (h : isLeap year = true) (month : Nat) :
    daysIn year month = daysIn 0 month := by
  have hleap : isLeap 0 = true := rfl
  simp only [daysIn, h, hleap]

/-- The day at a date of an era. -/
theorem toDay_civil (era : Int) {year month : Nat} (hyear : year < 400) (hmonth : month ≤ 11)
    (day : Nat) :
    toDay ⟨if civil month ≤ 2 then (year : Int) + era * 400 + 1 else year + era * 400,
        civil month, day + 1⟩ =
      era * 146097 + daysBefore year + ((153 * month + 2) / 5 + day : Nat) - 719468 := by
  have hyears : ∀ y : Int, Int.fdiv y 400 = y / 400 ∧ Int.fdiv y 4 = y / 4 ∧
      Int.fdiv y 100 = y / 100 := fun y =>
    ⟨Int.fdiv_eq_ediv_of_nonneg y (by decide), Int.fdiv_eq_ediv_of_nonneg y (by decide),
      Int.fdiv_eq_ediv_of_nonneg y (by decide)⟩
  unfold toDay civil daysBefore
  rcases Nat.lt_or_ge month 10 with hlate | hearly
  · have hnot : ¬ month + 3 ≤ 2 := by omega
    simp only [if_pos hlate, if_neg hnot, hyears, Nat.add_sub_cancel]
    omega
  · have hcivil : month - 9 ≤ 2 := by omega
    simp only [if_neg (Nat.not_lt.2 hearly), if_pos hcivil, Int.add_sub_cancel, hyears,
      Nat.sub_add_cancel (Nat.le_trans (by decide : 9 ≤ 10) hearly)]
    omega

/-- The parts of the date of a day. -/
theorem exists_parts (day : Int) : ∃ (era : Int) (year of : Nat), year < 400 ∧ of < 366 ∧
    (of = 365 → isLeap ((year : Int) + era * 400 + 1) = true) ∧
    day = era * 146097 + daysBefore year + of - 719468 ∧
    ofDay day = ⟨if civil ((5 * of + 2) / 153) ≤ 2 then (year : Int) + era * 400 + 1
        else year + era * 400, civil ((5 * of + 2) / 153),
      of - (153 * ((5 * of + 2) / 153) + 2) / 5 + 1⟩ := by
  obtain ⟨era, hera⟩ : ∃ era, era = Int.fdiv (day + 719468) 146097 := ⟨_, rfl⟩
  have hbounds : 0 ≤ day + 719468 - era * 146097 ∧ day + 719468 - era * 146097 < 146097 := by
    rw [Int.fdiv_eq_ediv_of_nonneg _ (by decide)] at hera
    omega
  obtain ⟨d, hd⟩ : ∃ d : Nat, d = (day + 719468 - era * 146097).toNat := ⟨_, rfl⟩
  obtain ⟨hyear, hfirst, hnext⟩ := daysBefore_yearOf (show d < 146097 by omega)
  refine ⟨era, yearOf d, d - daysBefore (yearOf d), hyear, ?_, ?_, ?_, ?_⟩
  · unfold daysBefore at *
    omega
  · intro hlast
    -- a year with a day 365 ends with a leap day
    have hleap : (yearOf d + 1) % 4 = 0 ∧ ((yearOf d + 1) % 100 ≠ 0 ∨ yearOf d + 1 = 400) := by
      unfold daysBefore at *
      omega
    simp only [isLeap, Bool.and_eq_true, Bool.or_eq_true, beq_iff_eq, bne_iff_ne]
    omega
  · omega
  · subst hd
    subst hera
    rfl

theorem toDay_ofDay (day : Int) : toDay (ofDay day) = day := by
  obtain ⟨era, year, of, hyear, hof, -, hday, hdate⟩ := exists_parts day
  obtain ⟨hmonth, hle, -⟩ := month_bounds of hof
  rw [hdate, toDay_civil era hyear hmonth]
  omega

theorem isValid_ofDay (day : Int) : (ofDay day).isValid = true := by
  obtain ⟨era, year, of, -, hof, hleap, -, hdate⟩ := exists_parts day
  obtain ⟨hmonth, hle, hlong⟩ := month_bounds of hof
  have hcivil : 1 ≤ civil ((5 * of + 2) / 153) ∧ civil ((5 * of + 2) / 153) ≤ 12 := by
    unfold civil
    split <;> omega
  -- only the last day of a year needs a leap day
  have hdays : of < (153 * ((5 * of + 2) / 153) + 2) / 5 +
      daysIn (ofDay day).year (civil ((5 * of + 2) / 153)) := by
    by_cases hlast : of = 365
    · subst hlast
      have hfebruary : civil ((5 * 365 + 2) / 153) ≤ 2 := by decide
      rw [if_pos rfl] at hlong
      simp only [hdate, if_pos hfebruary, daysIn_of_isLeap (hleap rfl)]
      exact hlong
    · rw [if_neg hlast] at hlong
      exact Nat.lt_of_lt_of_le hlong (Nat.add_le_add_left (daysIn_le _ _) _)
  have hyear : (ofDay day).month = civil ((5 * of + 2) / 153) := by rw [hdate]
  have hday : (ofDay day).day = of - (153 * ((5 * of + 2) / 153) + 2) / 5 + 1 := by rw [hdate]
  simp only [Date.isValid, hyear, hday, Bool.and_eq_true, decide_eq_true_eq]
  omega

theorem Date.isValid_bounds {date : Date} (h : date.isValid = true) :
    date.month ≤ 12 ∧ date.day ≤ 31 := by
  have hdays : daysIn date.year date.month ≤ 31 := by
    unfold daysIn
    repeat' split
    all_goals decide
  simp only [Date.isValid, Bool.and_eq_true, decide_eq_true_eq] at h
  exact ⟨h.1.1.2, Nat.le_trans h.2 hdays⟩

end Calendar

namespace Instant

/-! ### Digits -/

theorem digit?_of_isDigit {c : Char} (h : c.isDigit = true) : digit? c = some (c.toNat - 0x30) := by
  simp only [Char.isDigit, Bool.and_eq_true, decide_eq_true_eq, ge_iff_le] at h
  exact if_pos (by simpa only [Bool.and_eq_true, decide_eq_true_eq, Char.le_def] using h)

/-- Digits are read as the number that they spell. -/
theorem digits_append : ∀ {cs : List Char}, (∀ c ∈ cs, c.isDigit = true) → ∀ (value : Nat) rest,
    digits cs.length value (cs ++ rest) = some (Nat.ofDigitChars 10 cs value, rest)
  | [], _, _, _ => rfl
  | c :: cs, h, value, rest => by
    rw [List.length_cons, List.cons_append, digits, digit?_of_isDigit (h c List.mem_cons_self)]
    refine (digits_append (fun d hd => h d (List.mem_cons_of_mem _ hd)) _ rest).trans ?_
    rw [Nat.ofDigitChars_cons, Nat.mul_comm]
    rfl

theorem isDigit_of_mem_padded {width n : Nat} : ∀ c ∈ padded width n, c.isDigit = true := by
  intro c hc
  rcases List.mem_append.1 hc with hzero | hdigit
  · rw [List.eq_of_mem_replicate hzero]
    rfl
  · exact Nat.isDigit_of_mem_toDigits (by decide) (Nat.le_refl 10) hdigit

theorem length_padded {width n : Nat} (hwidth : 0 < width) (h : n < 10 ^ width) :
    (padded width n).length = width := by
  have : (Nat.toDigits 10 n).length ≤ width := (Nat.length_toDigits_le_iff (by decide) hwidth).2 h
  rw [padded, List.length_append, List.length_replicate]
  omega

theorem ofDigitChars_padded (width n : Nat) : Nat.ofDigitChars 10 (padded width n) 0 = n := by
  rw [padded, Nat.ofDigitChars_append, Nat.ofDigitChars_replicate_zero, Nat.mul_zero,
    Nat.ofDigitChars_ten_toDigits]

/-- A number is read back from as many digits as it has room in. -/
theorem digits_padded {width n : Nat} (hwidth : 0 < width) (h : n < 10 ^ width) (rest : List Char) :
    digits width 0 (padded width n ++ rest) = some (n, rest) := by
  have hdigits : ∀ c ∈ padded width n, c.isDigit = true := isDigit_of_mem_padded
  have hread := digits_append hdigits 0 rest
  rwa [length_padded hwidth h, ofDigitChars_padded] at hread

/-- The digits of a number are followed by something else. -/
def Ends (rest : List Char) : Prop :=
  ∀ c ∈ rest.head?, digit? c = none

theorem Ends.takeWhile {rest : List Char} (h : Ends rest) :
    rest.takeWhile (fun c => (digit? c).isSome) = [] ∧
      rest.dropWhile (fun c => (digit? c).isSome) = rest := by
  cases rest with
  | nil => exact ⟨rfl, rfl⟩
  | cons c cs => simp [h c rfl]

/-- The digits of a fraction are read as billionths. -/
theorem fraction_padded {width n : Nat} (hwidth : 0 < width) (hnine : width ≤ 9)
    (h : n < 10 ^ width) {rest : List Char} (hrest : Ends rest) :
    fraction (padded width n ++ rest) = some (10 ^ (9 - width) * n, rest) := by
  have hdigit : ∀ c ∈ padded width n, (digit? c).isSome = true := by
    intro c hc
    rw [digit?_of_isDigit (isDigit_of_mem_padded c hc)]
    rfl
  have hshown : (padded width n ++ rest).takeWhile (fun c => (digit? c).isSome) =
      padded width n := by
    rw [List.takeWhile_append_of_pos hdigit, hrest.takeWhile.1, List.append_nil]
  have hleft : (padded width n ++ rest).dropWhile (fun c => (digit? c).isSome) = rest := by
    rw [List.dropWhile_append_of_pos hdigit, hrest.takeWhile.2]
  have hnonempty : (padded width n).isEmpty = false := by
    rw [List.isEmpty_eq_false_iff, ← List.length_pos_iff, length_padded hwidth h]
    exact hwidth
  -- nine digits are the shown ones and the zeros that fill them up
  have hnines : padded width n ++ List.replicate 9 '0' =
      (padded width n ++ List.replicate (9 - width) '0') ++ List.replicate width '0' := by
    rw [List.append_assoc, List.replicate_append_replicate, Nat.sub_add_cancel hnine]
  have hlength : (padded width n ++ List.replicate (9 - width) '0').length = 9 := by
    rw [List.length_append, length_padded hwidth h, List.length_replicate,
      Nat.add_sub_cancel' hnine]
  have hall : ∀ c ∈ padded width n ++ List.replicate (9 - width) '0', c.isDigit = true := by
    intro c hc
    rcases List.mem_append.1 hc with hshown | hzero
    · exact isDigit_of_mem_padded c hshown
    · rw [List.eq_of_mem_replicate hzero]
      rfl
  have hread := digits_append hall 0 (List.replicate width '0')
  rw [hlength, Nat.ofDigitChars_append, ofDigitChars_padded, Nat.ofDigitChars_replicate_zero,
    ← hnines] at hread
  simp only [fraction, hshown, hleft, hnonempty, hread]
  rfl

theorem char_cons (c : Char) (cs : List Char) : char c (c :: cs) = some cs :=
  if_pos rfl

theorem date_append {year month day : Nat} (hyear : year < 10000) (hmonth : month < 100)
    (hday : day < 100) (rest : List Char) :
    date (padded 4 year ++ '-' :: (padded 2 month ++ '-' :: (padded 2 day ++ rest))) =
      some (⟨year, month, day⟩, rest) := by
  simp only [date, digits_padded (by decide : 0 < 4) hyear,
    digits_padded (by decide : 0 < 2) hmonth, digits_padded (by decide : 0 < 2) hday, char_cons,
    Option.bind_eq_bind, Option.bind_some]

/-- The zone that a start time is written with. -/
def utc : List Char :=
  "+00:00".toList

theorem ends_utc : Ends utc := by
  simp [Ends, utc, digit?]

/-- A fraction that is shown is read back, in as many digits as it takes. -/
theorem fractionText_append {nano : Nat} (h : nano < 1000000000) (hpos : nano ≠ 0) :
    ∃ cs, fractionText nano ++ utc = '.' :: cs ∧ fraction cs = some (nano, utc) := by
  have hpart : ∀ width, 0 < width → width ≤ 9 → 10 ^ (9 - width) ∣ nano →
      fraction (padded width (nano / 10 ^ (9 - width)) ++ utc) = some (nano, utc) := by
    intro width hwidth hnine hdvd
    have hlt : nano / 10 ^ (9 - width) < 10 ^ width := by
      rw [Nat.div_lt_iff_lt_mul (Nat.pow_pos (by decide)), ← Nat.pow_add,
        Nat.add_sub_cancel' hnine]
      exact h
    rw [fraction_padded hwidth hnine hlt ends_utc, Nat.mul_div_cancel' hdvd]
  simp only [fractionText, if_neg hpos]
  split
  · rename_i hmilli
    exact ⟨_, rfl, hpart 3 (by decide) (by decide) (Nat.dvd_of_mod_eq_zero hmilli)⟩
  · split
    · rename_i hmicro
      exact ⟨_, rfl, hpart 6 (by decide) (by decide) (Nat.dvd_of_mod_eq_zero hmicro)⟩
    · refine ⟨_, rfl, ?_⟩
      have hall := hpart 9 (by decide) (by decide) (Nat.one_dvd nano)
      rwa [Nat.sub_self, Nat.pow_zero, Nat.div_one] at hall

/-- The seconds of a minute and their fraction are read as what was written: a leap second is the
sixtieth. -/
theorem timeOfDay_append {second nano : Nat} (hsecond : second < 86400)
    (hnano : nano < 1000000000 ∨ nano < 2000000000 ∧ second % 60 = 59) :
    timeOfDay (padded 2 (second / 3600) ++ ':' :: (padded 2 (second / 60 % 60) ++ ':' ::
      (padded 2 (second % 60 + nano / 1000000000) ++ (fractionText (nano % 1000000000) ++ utc)))) =
      some ((second, nano), utc) := by
  have hdigits : ∀ n : Nat, n < 100 → ∀ rest, digits 2 0 (padded 2 n ++ rest) = some (n, rest) :=
    fun n hn rest => digits_padded (by decide) hn rest
  have hleap : nano / 1000000000 ≤ 1 := by omega
  have hrange : (second / 3600 ≤ 23 && second / 60 % 60 ≤ 59 &&
      second % 60 + nano / 1000000000 ≤ 60) = true := by
    simp only [Bool.and_eq_true, decide_eq_true_eq]
    omega
  have htime : ∀ fraction, fraction = nano % 1000000000 →
      (if second % 60 + nano / 1000000000 = 60 then
        some ((second / 3600 * 3600 + second / 60 % 60 * 60 + 59, 1000000000 + fraction), utc)
      else some ((second / 3600 * 3600 + second / 60 % 60 * 60 +
        (second % 60 + nano / 1000000000), fraction), utc)) = some ((second, nano), utc) := by
    rintro fraction rfl
    split <;> rw [Option.some.injEq, Prod.mk.injEq, Prod.mk.injEq] <;>
      exact ⟨⟨by omega, by omega⟩, rfl⟩
  rw [timeOfDay]
  simp only [hdigits (second / 3600) (by omega), hdigits (second / 60 % 60) (by omega),
    hdigits (second % 60 + nano / 1000000000) (by omega), char_cons, Option.bind_eq_bind,
    Option.bind_some]
  by_cases hshown : nano % 1000000000 = 0
  · rw [hshown]
    exact (if_pos hrange).trans (htime 0 hshown.symm)
  · obtain ⟨cs, hcs, hfraction⟩ := fractionText_append (Nat.mod_lt nano (by decide)) hshown
    rw [hcs]
    simp only [hfraction, Option.bind_some, if_pos hrange]
    exact htime _ rfl

/-! ### Reading back -/

/-- An instant that has an RFC 3339 form: its year has four digits, and only the last second of a
minute may be a leap second. -/
structure IsCivil (t : Instant) : Prop where
  year : 0 ≤ (Calendar.ofDay t.day).year ∧ (Calendar.ofDay t.day).year ≤ 9999
  second : t.second < 86400
  nano : t.nano < 1000000000 ∨ t.nano < 2000000000 ∧ t.second % 60 = 59

/-- The parts of the text of an instant. -/
theorem toList_toOffsetText {t : Instant} (h : t.IsCivil) : t.toOffsetText.toList =
    padded 4 (Calendar.ofDay t.day).year.toNat ++ '-' ::
      (padded 2 (Calendar.ofDay t.day).month ++ '-' :: (padded 2 (Calendar.ofDay t.day).day ++
        'T' :: (padded 2 (t.second / 3600) ++ ':' :: (padded 2 (t.second / 60 % 60) ++ ':' ::
          (padded 2 (t.second % 60 + t.nano / 1000000000) ++
            (fractionText (t.nano % 1000000000) ++ utc)))))) := by
  have hfour : (0 ≤ (Calendar.ofDay t.day).year && (Calendar.ofDay t.day).year ≤ 9999) = true := by
    simpa using h.year
  simp only [toOffsetText, toText, yearText, hfour, if_true, String.toList_ofList,
    List.append_assoc, List.cons_append]
  rfl

/-- **An instant is read back from its text.** -/
theorem parse_toOffsetText {t : Instant} (h : t.IsCivil) : parse t.toOffsetText = some t := by
  have hvalid := Calendar.isValid_ofDay t.day
  obtain ⟨hmonth, hday⟩ := Calendar.Date.isValid_bounds hvalid
  have hyear := h.year
  have hdate : (⟨(Calendar.ofDay t.day).year.toNat, (Calendar.ofDay t.day).month,
      (Calendar.ofDay t.day).day⟩ : Calendar.Date) = Calendar.ofDay t.day := by
    rw [Int.toNat_of_nonneg hyear.1]
  have hseparator : isSeparator 'T' = true := rfl
  have hzone : zone utc = some (0, []) := by decide
  have hsecond : Int.fdiv (t.second : Int) 86400 = 0 ∧
      Int.fmod (t.second : Int) 86400 = t.second := by
    rw [Int.fdiv_eq_ediv_of_nonneg _ (by decide), Int.fmod_eq_emod_of_nonneg _ (by decide)]
    have := h.second
    omega
  rw [parse, toList_toOffsetText h, date_append (by omega) (by omega) (by omega), hdate]
  simp only [Option.bind_eq_bind, Option.bind_some, hseparator, if_true,
    timeOfDay_append h.second h.nano, hzone, hvalid, List.isEmpty_nil, Bool.and_self, Int.sub_zero]
  rw [hsecond.1, hsecond.2, Calendar.toDay_ofDay, Int.add_zero]
  rfl

theorem isCivil_epoch : IsCivil ⟨0, 0, 0⟩ :=
  ⟨by decide, by decide, by decide⟩

theorem isBlank_of_mem_padded {width n : Nat} : ∀ c ∈ padded width n, Blank.isBlank c = false := by
  intro c hc
  refine Hex.isBlank_of_isDigit (Bool.or_eq_true_iff.2 (Or.inl ?_))
  simpa only [Char.isDigit, ge_iff_le, Char.le_def] using isDigit_of_mem_padded c hc

/-- Its text has no blanks. -/
theorem trim_toOffsetText {t : Instant} (h : t.IsCivil) :
    Blank.trim t.toOffsetText = t.toOffsetText := by
  have hutc : ∀ c ∈ utc, Blank.isBlank c = false := by
    rw [show utc = ['+', '0', '0', ':', '0', '0'] from rfl]
    simp only [List.forall_mem_cons]
    exact ⟨rfl, rfl, rfl, rfl, rfl, rfl, List.forall_mem_nil _⟩
  have hfraction : ∀ nano, ∀ c ∈ fractionText nano, Blank.isBlank c = false := by
    intro nano c hc
    unfold fractionText at hc
    repeat' split at hc
    · cases hc
    all_goals
      rcases List.mem_cons.1 hc with rfl | hc
      · rfl
      · exact isBlank_of_mem_padded c hc
  refine Blank.trim_eq_self ?_
  rw [toList_toOffsetText h]
  simp only [List.forall_mem_append, List.forall_mem_cons]
  exact ⟨isBlank_of_mem_padded, rfl, isBlank_of_mem_padded, rfl, isBlank_of_mem_padded, rfl,
    isBlank_of_mem_padded, rfl, isBlank_of_mem_padded, rfl, isBlank_of_mem_padded, hfraction _,
    hutc⟩

/-- The start time of an upload is read back from its file. -/
theorem startOfContent_ofText {t : Instant} (h : t.IsCivil) (path : Path) :
    Upload.startOfContent path (Bytes.ofText t.toOffsetText) = .ok t := by
  rw [Upload.startOfContent, Bytes.text?_ofText]
  simp only [trim_toOffsetText h, parse_toOffsetText h]

end Instant
end ContainerRegistry
