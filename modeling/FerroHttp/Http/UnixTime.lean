import FerroHttp.Http.Calendar

/-!
# Http.UnixTime — printed dates against the calendar

1. `checkedHttpDate_eq`: with every operation and every index of the source checked,
   nothing overflows and no index is out of range;
2. `httpDate_exact`: what is printed for a second is its day of the calendar, and it is
   read back.
-/

namespace FerroHttp

open Exec Text Gregorian

/-! ## Checked operations -/

/-- The era of a day number, and the day of the era. -/
def checkedEra (t : Target) (days : Int) : Outcome Empty (Int × Int) := do
  let z ← t.i64 (days + 719468)
  let shifted ← t.i64 (if 0 ≤ z then z else z - 146096)
  let era := shifted.tdiv 146097
  let eraDays ← t.i64 (era * 146097)
  let doe ← t.i64 (z - eraDays)
  pure (era, doe)

/-- The year of the era. -/
def checkedYoe (t : Target) (doe : Int) : Outcome Empty Int := do
  let cycles ← t.i64 (doe - doe.tdiv 1460)
  let centuries ← t.i64 (cycles + doe.tdiv 36524)
  let common ← t.i64 (centuries - doe.tdiv 146096)
  pure (common.tdiv 365)

/-- The day of the year. -/
def checkedDoy (t : Target) (doe yoe : Int) : Outcome Empty Int := do
  let yearDays ← t.i64 (365 * yoe)
  let withCycles ← t.i64 (yearDays + yoe.tdiv 4)
  let before ← t.i64 (withCycles - yoe.tdiv 100)
  t.i64 (doe - before)

/-- The month from March, and the day of the month. -/
def checkedMonthDay (t : Target) (doy : Int) : Outcome Empty (Int × Int) := do
  let fifths ← t.i64 (5 * doy)
  let shifted ← t.i64 (fifths + 2)
  let mp := shifted.tdiv 153
  let months ← t.i64 (153 * mp)
  let start ← t.i64 (months + 2)
  let before ← t.i64 (doy - start.tdiv 5)
  let day ← t.i64 (before + 1)
  pure (mp, day)

/-- `civilFromDays` with every operation of the source on `i64`; a branch is an operation
or none. -/
def checkedCivilFromDays (t : Target) (days : Int) : Outcome Empty (Int × Int × Int) := do
  let (era, doe) ← checkedEra t days
  let yoe ← checkedYoe t doe
  let eraYears ← t.i64 (era * 400)
  let year ← t.i64 (yoe + eraYears)
  let doy ← checkedDoy t doe yoe
  let (mp, day) ← checkedMonthDay t doy
  let month ← t.i64 (if mp < 10 then mp + 3 else mp - 9)
  let civilYear ← t.i64 (if month ≤ 2 then year + 1 else year)
  pure (civilYear, month, day)

/-- A table is indexed. -/
def indexed (table : List String) (i : Int) : Outcome Empty String :=
  if 0 ≤ i then
    match table[i.toNat]? with
    | some name => .ok name
    | none => .panic
  else .panic

/-- `httpDate` with every operation of the source on `i64`, and its indexing. -/
def checkedHttpDate (t : Target) (unixSecs : Nat) : Outcome Empty String := do
  let days : Int := (unixSecs / 86400 : Nat)
  let secsOfDay := unixSecs % 86400
  let hour := secsOfDay / 3600
  let minute := secsOfDay % 3600 / 60
  let second := secsOfDay % 60
  let shifted ← t.i64 (days.tmod 7 + 4)
  let weekday := shifted.tmod 7
  let (year, month, day) ← checkedCivilFromDays t days
  let weekdayName ← indexed weekdays weekday
  let monthIndex ← t.i64 (month - 1)
  let monthName ← indexed months monthIndex
  pure (weekdayName ++ ", " ++ padded 2 (toString day) ++ " " ++ monthName ++ " " ++
    padded 4 (toString year) ++ " " ++ padded 2 (toString hour) ++ ":" ++
    padded 2 (toString minute) ++ ":" ++ padded 2 (toString second) ++ " GMT")

section Checked

variable {t : Target}

theorem checkedEra_eq {days era : Int} {e : EraDay} (hlow : 0 ≤ days)
    (hhigh : days < 1000000000000000) (hsum : days + 719468 = era * 146097 + e.count) :
    checkedEra t days = .ok (era, e.count) := by
  have hcount := e.count_range
  have hz : 0 ≤ days + 719468 := by omega
  have hquot : (days + 719468).tdiv 146097 = era := by
    rw [Int.tdiv_eq_ediv_of_nonneg hz, hsum]
    omega
  have hdoe : days + 719468 - era * 146097 = e.count := by omega
  unfold checkedEra
  rw [i64_of_bounds (by omega) (by omega), Outcome.ok_bind, if_pos hz,
    i64_of_bounds (by omega) (by omega), Outcome.ok_bind]
  dsimp only
  rw [hquot, i64_of_bounds (by omega) (by omega), Outcome.ok_bind, hdoe,
    i64_of_bounds (by omega) (by omega)]
  rfl

theorem checkedYoe_eq (e : EraDay) : checkedYoe t e.count = .ok e.years := by
  have hcount := e.count_range
  have hdiv : ∀ k, e.count.tdiv k = e.count / k := fun k => Int.tdiv_eq_ediv_of_nonneg hcount.1
  have hyoe : (e.count - e.count / 1460 + e.count / 36524 - e.count / 146096).tdiv 365 =
      e.years := by
    rw [← e.years_eq]
    apply Int.tdiv_eq_ediv_of_nonneg
    omega
  unfold checkedYoe
  rw [hdiv, hdiv, hdiv, i64_of_bounds (by omega) (by omega), Outcome.ok_bind,
    i64_of_bounds (by omega) (by omega), Outcome.ok_bind, i64_of_bounds (by omega) (by omega),
    Outcome.ok_bind, hyoe]
  rfl

theorem checkedDoy_eq (e : EraDay) : checkedDoy t e.count e.years = .ok e.day := by
  have hyears := e.years_range
  have hday := e.day_range
  have hdiv : ∀ k, e.years.tdiv k = e.years / k := fun k => Int.tdiv_eq_ediv_of_nonneg hyears.1
  have hdoy : e.count - (365 * e.years + e.years / 4 - e.years / 100) = e.day := by
    rw [e.count_eq]
    omega
  unfold checkedDoy
  rw [hdiv, hdiv, i64_of_bounds (by omega) (by omega), Outcome.ok_bind,
    i64_of_bounds (by omega) (by omega), Outcome.ok_bind, i64_of_bounds (by omega) (by omega),
    Outcome.ok_bind, hdoy, i64_of_bounds (by omega) (by omega)]

theorem checkedMonthDay_eq {doy : Int} (hdoy : 0 ≤ doy ∧ doy ≤ 365) : checkedMonthDay t doy =
    .ok ((5 * doy + 2) / 153, doy - (153 * ((5 * doy + 2) / 153) + 2) / 5 + 1) := by
  have hmonth := monthDay_bounds hdoy
  have hmp : (5 * doy + 2).tdiv 153 = (5 * doy + 2) / 153 :=
    Int.tdiv_eq_ediv_of_nonneg (by omega)
  have hstart : (153 * ((5 * doy + 2) / 153) + 2).tdiv 5 =
      (153 * ((5 * doy + 2) / 153) + 2) / 5 := Int.tdiv_eq_ediv_of_nonneg (by omega)
  unfold checkedMonthDay
  rw [i64_of_bounds (by omega) (by omega), Outcome.ok_bind, i64_of_bounds (by omega) (by omega),
    Outcome.ok_bind]
  dsimp only
  rw [hmp, i64_of_bounds (by omega) (by omega), Outcome.ok_bind,
    i64_of_bounds (by omega) (by omega), Outcome.ok_bind, hstart,
    i64_of_bounds (by omega) (by omega), Outcome.ok_bind, i64_of_bounds (by omega) (by omega)]
  rfl

/-- No operation of the conversion overflows on the days of a `u64` of seconds. -/
theorem checkedCivilFromDays_eq {days : Int} (hlow : 0 ≤ days) (hhigh : days < 1000000000000000) :
    checkedCivilFromDays t days = .ok (civilFromDays days) := by
  have hrange : 0 ≤ (days + 719468) % 146097 ∧ (days + 719468) % 146097 < 146097 := by omega
  rcases EraDay.exists_of_count hrange with ⟨e, he⟩
  have hsum : days + 719468 = (days + 719468) / 146097 * 146097 + e.count := by omega
  have hera : 0 ≤ (days + 719468) / 146097 ∧ (days + 719468) / 146097 < 1000000000000 := by omega
  generalize (days + 719468) / 146097 = era at hsum hera
  have hyears := e.years_range
  have hmonth := monthDay_bounds e.day_range
  rw [civilFromDays_eq hera.1 hsum]
  unfold checkedCivilFromDays civilOf
  rw [checkedEra_eq hlow hhigh hsum, Outcome.ok_bind]
  dsimp only
  rw [checkedYoe_eq, Outcome.ok_bind, i64_of_bounds (by omega) (by omega), Outcome.ok_bind,
    i64_of_bounds (by omega) (by omega), Outcome.ok_bind, checkedDoy_eq, Outcome.ok_bind,
    checkedMonthDay_eq e.day_range, Outcome.ok_bind]
  dsimp only
  generalize (5 * e.day + 2) / 153 = mp at hmonth
  rw [i64_of_bounds (by split <;> omega) (by split <;> omega), Outcome.ok_bind,
    i64_of_bounds (by split <;> omega) (by split <;> omega)]
  rfl

theorem indexed_eq {table : List String} {i : Int} (h : 0 ≤ i ∧ i < table.length) :
    indexed table i = .ok (table.getD i.toNat "") := by
  have hlt : i.toNat < table.length := by omega
  rw [indexed, if_pos h.1, List.getD_eq_getElem?_getD, List.getElem?_eq_getElem hlt]
  rfl

/-- The weekday that is printed is that of the calendar. -/
theorem weekday_eq (n : Nat) :
    ((n : Int).tmod 7 + 4).tmod 7 = ((dayAt n).weekday : Nat) := by
  have hmod : (n : Int).tmod 7 = (n : Int) % 7 := Int.tmod_eq_emod_of_nonneg (by omega)
  rw [weekday_dayAt, hmod, Int.tmod_eq_emod_of_nonneg (by omega)]
  omega

/-- Nothing overflows, and the indexes are in range. -/
theorem checkedHttpDate_eq {n : Nat} (hn : n < u64Values) :
    checkedHttpDate t n = .ok (httpDate n) := by
  have hu : u64Values = 18446744073709551616 := rfl
  have hmonth := (dayAt (n / 86400)).date.month_range
  have hweekday := (dayAt (n / 86400)).weekday.isLt
  have htable : (weekdays.length : Int) = 7 := rfl
  have hmonths : (months.length : Int) = 12 := rfl
  have hmod : ((n / 86400 : Nat) : Int).tmod 7 = ((n / 86400 : Nat) : Int) % 7 :=
    Int.tmod_eq_emod_of_nonneg (by omega)
  unfold checkedHttpDate httpDate
  dsimp only
  rw [i64_of_bounds (by omega) (by omega), Outcome.ok_bind,
    checkedCivilFromDays_eq (by omega) (by omega), Outcome.ok_bind, weekday_eq,
    civilFromDays_dayAt]
  dsimp only
  rw [indexed_eq (by omega), Outcome.ok_bind, i64_of_bounds (by omega) (by omega), Outcome.ok_bind,
    indexed_eq (by omega)]
  rfl

end Checked

/-! ## Printed dates -/

/-- A day of the calendar and a second of it, as an IMF-fixdate. -/
def printDay (d : Day) (secsOfDay : Nat) : String :=
  weekdays.getD d.weekday "" ++ ", " ++ padded 2 (toString d.date.day) ++ " " ++
    months.getD (d.date.month - 1).toNat "" ++ " " ++ padded 4 (toString d.date.year) ++ " " ++
    padded 2 (toString (secsOfDay / 3600)) ++ ":" ++
    padded 2 (toString (secsOfDay % 3600 / 60)) ++ ":" ++ padded 2 (toString (secsOfDay % 60)) ++
    " GMT"

/-- What is printed is the day of the calendar. -/
theorem httpDate_eq_printDay (n : Nat) :
    httpDate n = printDay (dayAt (n / 86400)) (n % 86400) := by
  unfold httpDate printDay
  dsimp only
  rw [weekday_eq, civilFromDays_dayAt]
  rfl

/-- Dates are exact for every `u64`: a printed date is read back, it is the day of the
calendar that many days after the epoch, and neither an operation nor an index fails on
the way. -/
theorem httpDate_exact (t : Target) {n : Nat} (hn : n < u64Values) :
    parseHttpDate t (httpDate n) = .ok (some n) ∧
      httpDate n = printDay (dayAt (n / 86400)) (n % 86400) ∧
      checkedHttpDate t n = .ok (httpDate n) :=
  ⟨parseHttpDate_httpDate hn, httpDate_eq_printDay n, checkedHttpDate_eq hn⟩

/-- The last second. -/
theorem lastSecond_exact :
    parseHttpDate ⟨.w64, true⟩ (httpDate 18446744073709551615) = .ok (some 18446744073709551615) :=
  (httpDate_exact ⟨.w64, true⟩ (by decide)).1

example : httpDate 18446744073709551615 = "Thu, 09 Nov 584554051223 07:00:15 GMT" := by decide

end FerroHttp
