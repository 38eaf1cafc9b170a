import FerroHttp.Http.Date
import FerroHttp.Lib.Decimal
import FerroHttp.Lib.Proleptic
import FerroHttp.Lib.Split

/-!
# Http.Calendar — dates are read back

1. `civilFromDays_dayAt`: the conversion of a day number finds its day of the calendar,
   by the day of the era (`civilFromDays_eq`);
2. `daysFromCivil_of_bounds`: the conversion back finds the number of a date, in every
   build, as long as that is within the bounds of an `i64`;
3. `DateRead`: the fields of a value that is read as a date;
4. `parseHttpDate_httpDate`: so what `httpDate` prints is read back, for every `u64`.
-/

namespace FerroHttp

open Exec Text Gregorian

/-! ## Civil dates -/

/-- The civil date of a day of the era: years begin on 1 March. -/
def civilOf (era : Int) (e : EraDay) : Int × Int × Int :=
  let mp := (5 * e.day + 2) / 153
  let month := if mp < 10 then mp + 3 else mp - 9
  (if month ≤ 2 then e.years + era * 400 + 1 else e.years + era * 400, month,
    e.day - (153 * mp + 2) / 5 + 1)

/-- The conversion finds the day of the era. -/
theorem civilFromDays_eq {days era : Int} {e : EraDay} (hera : 0 ≤ era)
    (hdays : days + 719468 = era * 146097 + e.count) : civilFromDays days = civilOf era e := by
  have hcount := e.count_range
  have hyears := e.years_range
  have hday := e.day_range
  have hz : 0 ≤ days + 719468 := by omega
  have hquot : (days + 719468).tdiv 146097 = era := by
    rw [Int.tdiv_eq_ediv_of_nonneg hz, hdays]
    omega
  have hdoe : days + 719468 - era * 146097 = e.count := by omega
  have hdiv : ∀ k, e.count.tdiv k = e.count / k := fun k =>
    Int.tdiv_eq_ediv_of_nonneg hcount.1
  have hyoe : (e.count - e.count.tdiv 1460 + e.count.tdiv 36524 - e.count.tdiv 146096).tdiv 365 =
      e.years := by
    rw [hdiv, hdiv, hdiv, ← e.years_eq]
    apply Int.tdiv_eq_ediv_of_nonneg
    omega
  have hdoy : e.count - (365 * e.years + e.years.tdiv 4 - e.years.tdiv 100) = e.day := by
    rw [Int.tdiv_eq_ediv_of_nonneg hyears.1, Int.tdiv_eq_ediv_of_nonneg hyears.1, e.count_eq]
    omega
  have hmp : (5 * e.day + 2).tdiv 153 = (5 * e.day + 2) / 153 :=
    Int.tdiv_eq_ediv_of_nonneg (by omega)
  have hstart : (153 * ((5 * e.day + 2) / 153) + 2).tdiv 5 =
      (153 * ((5 * e.day + 2) / 153) + 2) / 5 := Int.tdiv_eq_ediv_of_nonneg (by omega)
  unfold civilFromDays civilOf
  simp only [hz, if_true, hquot, hdoe, hyoe, hdoy, hmp, hstart]

section Civil

variable {era : Int} {e : EraDay}

/-- The date of a day of the era is found from the day of the year. -/
theorem civilOf_date (d : Date) (hyear : d.marchYear = e.years + era * 400)
    (hday : d.marchDay = e.day) : civilOf era e = (d.year, d.month, d.day) := by
  have hmonth := d.month_range
  have hmp := d.marchMonth_eq
  have hlast : d.marchDay - (153 * d.marchMonth + 2) / 5 + 1 = d.day := by
    unfold Date.marchDay
    omega
  unfold civilOf
  rw [← hday, ← hyear, hmp]
  simp only [hlast]
  by_cases hlate : 2 < d.month
  · have hm : d.marchMonth = d.month - 3 := if_pos hlate
    have hy : d.marchYear = d.year := if_neg (by omega)
    have hten : d.month - 3 < 10 := by omega
    have hback : d.month - 3 + 3 = d.month := by omega
    have hnot : ¬ d.month ≤ 2 := by omega
    simp only [hm, hy, hten, if_true, hback, hnot, if_false]
  · have hm : d.marchMonth = d.month + 9 := if_neg hlate
    have hy : d.marchYear = d.year - 1 := if_pos (by omega)
    have hten : ¬ d.month + 9 < 10 := by omega
    have hback : d.month + 9 - 9 = d.month := by omega
    have hearly : d.month ≤ 2 := by omega
    have hnext : d.year - 1 + 1 = d.year := by omega
    simp only [hm, hy, hten, if_false, hback, hearly, if_true, hnext]

/-- The conversion finds the date of a day number. -/
theorem civilFromDays_number (d : Date) (h : 0 ≤ d.number) :
    civilFromDays d.number = (d.year, d.month, d.day) := by
  rcases d.exists_eraDay with ⟨era, e, hyear, hday, hnumber⟩
  have hcount := e.count_range
  have hsum : d.number + 719468 = era * 146097 + e.count := by omega
  rw [civilFromDays_eq (by omega : 0 ≤ era) hsum]
  exact civilOf_date d hyear hday

/-- The day that is reached from the epoch in `n` steps has the civil date of `n`. -/
theorem civilFromDays_dayAt (n : Nat) : civilFromDays n =
    ((dayAt n).date.year, (dayAt n).date.month, (dayAt n).date.day) := by
  have hnumber := number_dayAt n
  rw [← hnumber]
  apply civilFromDays_number
  omega

end Civil

/-! ## Counting days -/

/-- An `i64` operation whose result is small enough. -/
theorem i64_of_bounds {t : Target} {n : Int} (hlow : -9223372036854775808 ≤ n)
    (hhigh : n < 9223372036854775808) : (t.i64 n : Outcome Empty Int) = .ok n := by
  rw [Target.i64, if_pos ⟨hlow, hhigh⟩]

section Count

variable {t : Target} {year month day : Int}

/-- The source's division of a year by 400 rounds down. -/
theorem tdiv_era (y : Int) : (if 0 ≤ y then y else y - 399).tdiv 400 = y / 400 := by
  split
  · rename_i hy
    exact Int.tdiv_eq_ediv_of_nonneg hy
  · have hneg : y - 399 = -(399 - y) := by omega
    rw [hneg, Int.neg_tdiv, Int.tdiv_eq_ediv_of_nonneg (by omega)]
    omega

/-- The operations of the count, one after the other. -/
theorem daysFromCivil_eq (t : Target) (year month day : Int) :
    daysFromCivil t year month day =
      (if month ≤ 2 then t.i64 (year - 1) else pure year) >>= fun y =>
      (if 0 ≤ y then pure y else t.i64 (y - 399)) >>= fun shifted =>
      t.i64 (y - shifted.tdiv 400 * 400) >>= fun yoe =>
      t.i64 (shifted.tdiv 400 * 146097) >>= fun eraDays =>
      t.i64 (eraDays + (yoe * 365 + yoe.tdiv 4 - yoe.tdiv 100 +
        ((153 * (if 2 < month then month - 3 else month + 9) + 2).tdiv 5 + day - 1))) >>= fun days =>
      t.i64 (days - 719468) := by
  have hshift : ∀ y : Int, ∀ f : Int → Outcome Empty Int,
      (if 0 ≤ y then pure y >>= f else t.i64 (y - 399) >>= f) =
        (if 0 ≤ y then pure y else t.i64 (y - 399)) >>= f := by
    intro y f
    split <;> rfl
  unfold daysFromCivil
  dsimp only
  simp only [hshift]
  split <;> rfl

/-- What every step of the count is: a year near `y`, the days of its eras, and the
rest. -/
theorem era_bounds (hmonth : 1 ≤ month ∧ month ≤ 12) (hday : 1 ≤ day ∧ day ≤ 31) (y : Int)
    (hy : y = if month ≤ 2 then year - 1 else year) :
    ∃ doe, 0 ≤ doe ∧ doe < 146200 ∧
      y / 400 * 146097 + doe - 719468 = dayNumber year month day ∧
      (y - y / 400 * 400) * 365 + (y - y / 400 * 400).tdiv 4 - (y - y / 400 * 400).tdiv 100 +
        ((153 * (if 2 < month then month - 3 else month + 9) + 2).tdiv 5 + day - 1) = doe := by
  have hmp : 0 ≤ (if 2 < month then month - 3 else month + 9) ∧
      (if 2 < month then month - 3 else month + 9) ≤ 11 := by
    split <;> omega
  have hfour : (y - y / 400 * 400).tdiv 4 = (y - y / 400 * 400) / 4 :=
    Int.tdiv_eq_ediv_of_nonneg (by omega)
  have hhundred : (y - y / 400 * 400).tdiv 100 = (y - y / 400 * 400) / 100 :=
    Int.tdiv_eq_ediv_of_nonneg (by omega)
  have hstart : (153 * (if 2 < month then month - 3 else month + 9) + 2).tdiv 5 =
      (153 * (if 2 < month then month - 3 else month + 9) + 2) / 5 :=
    Int.tdiv_eq_ediv_of_nonneg (by omega)
  rw [hfour, hhundred, hstart]
  refine ⟨_, ?_, ?_, ?_, rfl⟩
  · omega
  · omega
  · simp only [dayNumber]
    rw [← hy]
    omega

/-- A count within the bounds is exact, in every build. -/
theorem daysFromCivil_of_bounds (hmonth : 1 ≤ month ∧ month ≤ 12) (hday : 1 ≤ day ∧ day ≤ 31)
    (hlow : -9223372036854775808 ≤ dayNumber year month day)
    (hhigh : dayNumber year month day < 9223372036854056340) :
    daysFromCivil t year month day = .ok (dayNumber year month day) := by
  rcases @era_bounds year month day hmonth hday _ rfl with ⟨doe, hdoe0, hdoe1, hnumber, hdoe⟩
  rw [daysFromCivil_eq]
  have hyear : (if month ≤ 2 then t.i64 (year - 1) else pure year : Outcome Empty Int) =
      .ok (if month ≤ 2 then year - 1 else year) := by
    split at hnumber
    · rename_i hearly
      rw [if_pos hearly, if_pos hearly]
      exact i64_of_bounds (by omega) (by omega)
    · rename_i hlate
      rw [if_neg hlate, if_neg hlate]
      rfl
  rw [hyear, Outcome.ok_bind]
  generalize (if month ≤ 2 then year - 1 else year) = y at hnumber hdoe
  have hshifted : (if 0 ≤ y then pure y else t.i64 (y - 399) : Outcome Empty Int) =
      .ok (if 0 ≤ y then y else y - 399) := by
    by_cases hy : 0 ≤ y
    · rw [if_pos hy, if_pos hy]
      rfl
    · rw [if_neg hy, if_neg hy]
      exact i64_of_bounds (by omega) (by omega)
  rw [hshifted, Outcome.ok_bind, tdiv_era, i64_of_bounds (by omega) (by omega),
    Outcome.ok_bind, i64_of_bounds (by omega) (by omega), Outcome.ok_bind, hdoe,
    i64_of_bounds (by omega) (by omega), Outcome.ok_bind, i64_of_bounds (by omega) (by omega),
    hnumber]

end Count

/-- The date of a day is a date of that day, in the ranges of a printed one. -/
theorem daysFromCivil_civilFromDays {t : Target} {days : Int} (hlow : 0 ≤ days)
    (hhigh : days < 1000000000000000) :
    daysFromCivil t (civilFromDays days).1 (civilFromDays days).2.1 (civilFromDays days).2.2 =
        .ok days ∧
      (0 ≤ (civilFromDays days).1 ∧ (civilFromDays days).1 < 10000000000000) ∧
      (1 ≤ (civilFromDays days).2.1 ∧ (civilFromDays days).2.1 ≤ 12) ∧
      1 ≤ (civilFromDays days).2.2 ∧ (civilFromDays days).2.2 ≤ 31 := by
  rcases Int.eq_ofNat_of_zero_le hlow with ⟨n, rfl⟩
  rw [civilFromDays_dayAt]
  have hnumber := number_dayAt n
  generalize (dayAt n).date = d at hnumber
  have hmonth := d.month_range
  have hday := d.day_range
  have hlen := monthLength_range d.year d.month
  have hdays : dayNumber d.year d.month d.day = n := hnumber
  dsimp only
  refine ⟨?_, ?_, hmonth, by omega, by omega⟩
  · rw [← hdays]
    exact daysFromCivil_of_bounds hmonth (by omega) (by omega) (by omega)
  · -- the years between are counted with their days
    by_cases hearly : d.month ≤ 2
    · rw [dayNumber_early hearly] at hdays
      omega
    · rw [dayNumber_late (by omega)] at hdays
      omega

/-! ## Reading fields -/

/-- The texts of a value that has the shape of a date. -/
structure DateTexts (value : String) where
  weekday : String
  day : String
  month : String
  year : String
  time : String
  hour : String
  minute : String
  second : String
  value_eq : split ' ' value = [weekday, day, month, year, time, "GMT"]
  time_eq : split ':' time = [hour, minute, second]

/-- The numbers that are read from them, within the bounds that are checked. -/
structure DateRead (value : String) extends DateTexts value where
  dayNo : Int
  monthIndex : Nat
  yearNo : Int
  hourNo : Nat
  minuteNo : Nat
  secondNo : Nat
  day_eq : parseSigned i64Bound day = some dayNo
  month_eq : months.findIdx? (· == month) = some monthIndex
  year_eq : parseSigned i64Bound year = some yearNo
  hour_eq : parseUnsigned u64Values hour = some hourNo
  minute_eq : parseUnsigned u64Values minute = some minuteNo
  second_eq : parseUnsigned u64Values second = some secondNo
  day_range : 1 ≤ dayNo ∧ dayNo ≤ 31
  time_range : hourNo ≤ 23 ∧ minuteNo ≤ 59 ∧ secondNo ≤ 60

/-- A date that is read is counted. -/
theorem DateRead.parseHttpDate_eq {value : String} {t : Target} (f : DateRead value) :
    parseHttpDate t value =
      secondsOf t f.yearNo (f.monthIndex + 1) f.dayNo f.hourNo f.minuteNo f.secondNo := by
  have hday := f.day_range
  have htime := f.time_range
  have hranges : ¬ ((!(decide (1 ≤ f.dayNo) && decide (f.dayNo ≤ 31)) ||
      decide (23 < f.hourNo) || decide (59 < f.minuteNo) || decide (60 < f.secondNo)) = true) := by
    simp only [Bool.or_eq_true, Bool.not_eq_true', Bool.and_eq_false_iff, decide_eq_true_eq,
      decide_eq_false_iff_not]
    omega
  unfold parseHttpDate
  rw [f.value_eq]
  simp only [f.day_eq, f.month_eq, f.year_eq, f.time_eq, f.hour_eq, f.minute_eq, f.second_eq]
  rw [if_neg (by simp), if_neg hranges]

/-! ## Printed dates -/

theorem u64_of_lt {t : Target} {n : Nat} (h : n < u64Values) :
    (t.u64 n : Outcome Empty Nat) = .ok n := if_pos h

/-- The fields of a timestamp are its seconds. -/
theorem secondsOf_httpDate {t : Target} {n : Nat} (hn : n < u64Values) :
    secondsOf t (civilFromDays (n / 86400 : Nat)).1 (civilFromDays (n / 86400 : Nat)).2.1
        (civilFromDays (n / 86400 : Nat)).2.2 (n % 86400 / 3600) (n % 86400 % 3600 / 60)
        (n % 86400 % 60) = .ok (some n) := by
  have hu : u64Values = 18446744073709551616 := rfl
  have hdays := (@daysFromCivil_civilFromDays t ((n / 86400 : Nat) : Int) (by omega)
    (by omega)).1
  rw [secondsOf, hdays, Outcome.ok_bind, if_neg (by omega), Int.toNat_natCast]
  rw [u64_of_lt (by omega), Outcome.ok_bind, u64_of_lt (by omega), Outcome.ok_bind,
    u64_of_lt (by omega), Outcome.ok_bind, u64_of_lt (by omega), Outcome.ok_bind]
  have hsum : n / 86400 * 86400 + n % 86400 / 3600 * 3600 + n % 86400 % 3600 / 60 * 60 +
      n % 86400 % 60 = n := by omega
  rw [hsum]
  rfl

/-- The names of the months are found again, and neither they nor those of the days
contain a space. -/
theorem monthName_ok : ∀ i < 12, months.findIdx? (· == months.getD i "") = some i ∧
    ' ' ∉ (months.getD i "").toList := by
  decide

theorem weekdayName_ok (i : Nat) : ' ' ∉ (weekdays.getD i "" ++ ",").toList := by
  by_cases h : i < 7
  · have hall : ∀ i < 7, ' ' ∉ (weekdays.getD i "" ++ ",").toList := by decide
    exact hall i h
  · have hnone : weekdays.getD i "" = "" := by
      have hlen : weekdays.length ≤ i := by
        show 7 ≤ i
        omega
      rw [List.getD_eq_getElem?_getD, List.getElem?_eq_none hlen]
      rfl
    rw [hnone]
    decide

/-- A padded number is a numeral for it. -/
theorem isDecimal_padded (width n : Nat) : IsDecimal (padded width (toString n)) n :=
  (IsDecimal.toString n).zeros_append _

/-- The pieces of a printed date. -/
structure DateFields (weekday : String) (day month year hour minute second : Nat) : Prop where
  weekday : ' ' ∉ weekday.toList
  day : 1 ≤ day ∧ day ≤ 31
  month : month < 12
  year : year < i64Bound
  hour : hour ≤ 23
  minute : minute ≤ 59
  second : second ≤ 60

/-- The text of a date. -/
def dateText (weekday : String) (day month year hour minute second : Nat) : String :=
  String.intercalate " " [weekday, padded 2 (toString day), months.getD month "",
    padded 4 (toString year), String.intercalate ":" [padded 2 (toString hour),
      padded 2 (toString minute), padded 2 (toString second)], "GMT"]

/-- The fields of a printed date are read from its text. -/
def DateFields.read {weekday : String} {day month year hour minute second : Nat}
    (h : DateFields weekday day month year hour minute second) :
    DateRead (dateText weekday day month year hour minute second) where
  weekday := weekday
  day := padded 2 (toString day)
  month := months.getD month ""
  year := padded 4 (toString year)
  time := String.intercalate ":" [padded 2 (toString hour), padded 2 (toString minute),
    padded 2 (toString second)]
  hour := padded 2 (toString hour)
  minute := padded 2 (toString minute)
  second := padded 2 (toString second)
  value_eq := by
    have hspace : ' ' ∉ (String.intercalate ":" [padded 2 (toString hour),
        padded 2 (toString minute), padded 2 (toString second)]).toList := by
      simp only [String.intercalate_cons_cons, String.intercalate_singleton, String.toList_append,
        List.mem_append, not_or]
      have hnot : ∀ n, ' ' ∉ (padded 2 (toString n)).toList := fun n =>
        (isDecimal_padded _ _).not_mem rfl
      have hcolon : ' ' ∉ (":" : String).toList := by decide
      exact ⟨⟨hnot hour, hcolon⟩, ⟨hnot minute, hcolon⟩, hnot second⟩
    apply split_join rfl (by simp)
    intro piece hpiece
    simp only [List.mem_cons, List.not_mem_nil, or_false] at hpiece
    rcases hpiece with rfl | rfl | rfl | rfl | rfl | rfl
    · exact h.weekday
    · exact (isDecimal_padded _ _).not_mem rfl
    · exact (monthName_ok month h.month).2
    · exact (isDecimal_padded _ _).not_mem rfl
    · exact hspace
    · decide
  time_eq := by
    apply split_join rfl (by simp)
    intro piece hpiece
    simp only [List.mem_cons, List.not_mem_nil, or_false] at hpiece
    rcases hpiece with rfl | rfl | rfl <;> exact (isDecimal_padded _ _).not_mem rfl
  dayNo := day
  monthIndex := month
  yearNo := year
  hourNo := hour
  minuteNo := minute
  secondNo := second
  day_eq := (isDecimal_padded 2 day).parseSigned (lt_of_le_of_lt h.day.2 (by decide))
  month_eq := (monthName_ok month h.month).1
  year_eq := (isDecimal_padded 4 year).parseSigned h.year
  hour_eq := (isDecimal_padded 2 hour).parseUnsigned (lt_of_le_of_lt h.hour (by decide))
  minute_eq := (isDecimal_padded 2 minute).parseUnsigned (lt_of_le_of_lt h.minute (by decide))
  second_eq := (isDecimal_padded 2 second).parseUnsigned (lt_of_le_of_lt h.second (by decide))
  day_range := by
    have hday := h.day
    omega
  time_range := ⟨h.hour, h.minute, h.second⟩

/-- A date is read field by field. -/
theorem parseHttpDate_dateText {t : Target} {weekday : String}
    {day month year hour minute second : Nat}
    (h : DateFields weekday day month year hour minute second) :
    parseHttpDate t (dateText weekday day month year hour minute second) =
      secondsOf t year (month + 1) day hour minute second :=
  h.read.parseHttpDate_eq

/-- A printed date is the text of its civil date. -/
theorem httpDate_eq {n d m y : Nat}
    (hcivil : civilFromDays (n / 86400 : Nat) = ((y : Int), (m : Int) + 1, (d : Int))) :
    httpDate n = dateText (weekdays.getD ((((n / 86400 : Nat) : Int).tmod 7 + 4).tmod 7).toNat ""
      ++ ",") d m y (n % 86400 / 3600) (n % 86400 % 3600 / 60) (n % 86400 % 60) := by
  have hpieces : httpDate n =
      weekdays.getD ((((n / 86400 : Nat) : Int).tmod 7 + 4).tmod 7).toNat "" ++ ", " ++
        padded 2 (toString (civilFromDays (n / 86400 : Nat)).2.2) ++ " " ++
        months.getD ((civilFromDays (n / 86400 : Nat)).2.1 - 1).toNat "" ++ " " ++
        padded 4 (toString (civilFromDays (n / 86400 : Nat)).1) ++ " " ++
        padded 2 (toString (n % 86400 / 3600)) ++ ":" ++
        padded 2 (toString (n % 86400 % 3600 / 60)) ++ ":" ++
        padded 2 (toString (n % 86400 % 60)) ++ " GMT" := rfl
  have hcomma : (", " : String) = "," ++ " " := by decide
  have hgmt : (" GMT" : String) = " " ++ "GMT" := by decide
  have hindex : ((m : Int) + 1 - 1).toNat = m := by omega
  have hd : toString (d : Int) = toString d := rfl
  have hy : toString (y : Int) = toString y := rfl
  rw [hpieces, hcivil]
  simp only [dateText, String.intercalate_cons_cons, String.intercalate_singleton, hcomma, hgmt,
    hindex, hd, hy, String.append_assoc]

/-- What `httpDate` prints is read back as the same number of seconds. -/
theorem parseHttpDate_httpDate {t : Target} {n : Nat} (hn : n < u64Values) :
    parseHttpDate t (httpDate n) = .ok (some n) := by
  have hu : u64Values = 18446744073709551616 := rfl
  have hi : i64Bound = 9223372036854775808 := rfl
  rcases @daysFromCivil_civilFromDays t ((n / 86400 : Nat) : Int) (by omega) (by omega) with
    ⟨_, hyear, hmonth, hday⟩
  have hsecs : secondsOf t _ _ _ _ _ _ = .ok (some n) := secondsOf_httpDate hn
  rcases hcivil : civilFromDays ((n / 86400 : Nat) : Int) with ⟨year, month, day⟩
  rw [hcivil] at hyear hmonth hday hsecs
  dsimp only at hyear hmonth hday hsecs
  -- the fields are not negative
  rcases Int.eq_ofNat_of_zero_le hyear.1 with ⟨y, rfl⟩
  rcases Int.eq_ofNat_of_zero_le (by omega : 0 ≤ day) with ⟨d, rfl⟩
  rcases Int.eq_ofNat_of_zero_le (by omega : 0 ≤ month - 1) with ⟨m, hm⟩
  have hmonth' : month = (m : Int) + 1 := by omega
  subst hmonth'
  rw [httpDate_eq hcivil, parseHttpDate_dateText, hsecs]
  exact ⟨weekdayName_ok _, by omega, by omega, by omega, by omega, by omega, by omega⟩

end FerroHttp
