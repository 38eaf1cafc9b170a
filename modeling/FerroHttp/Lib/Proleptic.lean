import FerroHttp.Lib.Gregorian

/-!
# Proleptic — the Gregorian calendar, day after day

The calendar as it is defined: months have their lengths, February has 29 days in a
leap year, and behind the last day of a month comes the first of the next one. A `Date`
exists by construction.

1. `dayNumber`: the days since 1 January 1970, in closed form;
2. `number_next`: the next day has the next number, so `number_dayAt`: the day
   that is reached from the epoch in `n` steps has the number `n`;
3. `Date.exists_eraDay`: every date is a day of an era.
-/

namespace Gregorian

/-! ## Dates -/

/-- Divisible by 4 and not by 100, or by 400. -/
def IsLeap (year : Int) : Prop := year % 4 = 0 ∧ year % 100 ≠ 0 ∨ year % 400 = 0

instance (year : Int) : Decidable (IsLeap year) := inferInstanceAs (Decidable (_ ∨ _))

def monthLength (year month : Int) : Int :=
  if month = 2 then if IsLeap year then 29 else 28
  else if month = 4 ∨ month = 6 ∨ month = 9 ∨ month = 11 then 30
  else 31

/-- A date that exists. -/
structure Date where
  year : Int
  month : Int
  day : Int
  month_range : 1 ≤ month ∧ month ≤ 12
  day_range : 1 ≤ day ∧ day ≤ monthLength year month

theorem monthLength_range (year month : Int) :
    28 ≤ monthLength year month ∧ monthLength year month ≤ 31 := by
  unfold monthLength
  split
  · split <;> omega
  · split <;> omega

/-- From March on, five months have 153 days. -/
theorem monthLength_late {year month : Int} (h : 3 ≤ month ∧ month ≤ 12) :
    monthLength year month = (153 * (month - 2) + 2) / 5 - (153 * (month - 3) + 2) / 5 := by
  have hmonth : month = 3 ∨ month = 4 ∨ month = 5 ∨ month = 6 ∨ month = 7 ∨ month = 8 ∨
      month = 9 ∨ month = 10 ∨ month = 11 ∨ month = 12 := by omega
  rcases hmonth with rfl | rfl | rfl | rfl | rfl | rfl | rfl | rfl | rfl | rfl <;> rfl

namespace Date

/-- The first day of a month. -/
def first (year month : Int) (h : 1 ≤ month ∧ month ≤ 12) : Date where
  year := year
  month := month
  day := 1
  month_range := h
  day_range := by
    have hlen := monthLength_range year month
    omega

/-- The next day: of the same month, of the next one, or of the next year. -/
def next (d : Date) : Date :=
  if h : d.day < monthLength d.year d.month then
    { d with day := d.day + 1, day_range := by have hd := d.day_range; omega }
  else if h : d.month < 12 then
    first d.year (d.month + 1) (by have hm := d.month_range; omega)
  else first (d.year + 1) 1 (by omega)

end Date

/-! ## Day numbers -/

/-- The days from 1 January 1970 to a day of a month: years that begin on 1 March, their
leap days, months of 153 days in five, and the days of the month. -/
def dayNumber (year month day : Int) : Int :=
  let y := if month ≤ 2 then year - 1 else year
  let mp := if 2 < month then month - 3 else month + 9
  365 * y + y / 4 - y / 100 + y / 400 + (153 * mp + 2) / 5 + day - 719469

/-- The number of a date. -/
def Date.number (d : Date) : Int := dayNumber d.year d.month d.day

example : dayNumber 1970 1 1 = 0 := by decide

theorem dayNumber_early {year month : Int} (h : month ≤ 2) (day : Int) :
    dayNumber year month day = 365 * (year - 1) + (year - 1) / 4 - (year - 1) / 100 +
      (year - 1) / 400 + (153 * (month + 9) + 2) / 5 + day - 719469 := by
  have hlate : ¬ 2 < month := by omega
  simp only [dayNumber, h, hlate, if_true, if_false]

theorem dayNumber_late {year month : Int} (h : 2 < month) (day : Int) :
    dayNumber year month day = 365 * year + year / 4 - year / 100 + year / 400 +
      (153 * (month - 3) + 2) / 5 + day - 719469 := by
  have hearly : ¬ month ≤ 2 := by omega
  simp only [dayNumber, h, hearly, if_true, if_false]

theorem dayNumber_add (year month day k : Int) :
    dayNumber year month (day + k) = dayNumber year month day + k := by
  simp only [dayNumber]
  omega

/-- The first of March is 29 days behind the first of February in a leap year, else 28. -/
theorem dayNumber_march (year : Int) :
    dayNumber year 3 1 = dayNumber year 2 (monthLength year 2) + 1 := by
  rw [dayNumber_late (by omega), dayNumber_early (by omega), monthLength, if_pos rfl]
  by_cases hleap : IsLeap year
  · rw [if_pos hleap]
    unfold IsLeap at hleap
    omega
  · rw [if_neg hleap]
    unfold IsLeap at hleap
    omega

/-- The first of the next month is as many days away as the month is long. -/
theorem dayNumber_month {year month : Int} (h : 1 ≤ month ∧ month < 12) :
    dayNumber year (month + 1) 1 = dayNumber year month (monthLength year month) + 1 := by
  by_cases hfeb : month = 2
  · rw [hfeb]
    exact dayNumber_march year
  · by_cases hjan : month = 1
    · rw [hjan, dayNumber_early (by omega), dayNumber_early (by omega)]
      simp only [monthLength]
      omega
    · rw [dayNumber_late (by omega), dayNumber_late (by omega),
        monthLength_late (by omega : 3 ≤ month ∧ month ≤ 12)]
      omega

theorem dayNumber_year (year : Int) :
    dayNumber (year + 1) 1 1 = dayNumber year 12 31 + 1 := by
  rw [dayNumber_early (by omega), dayNumber_late (by omega)]
  omega

/-- The next day has the next number. -/
theorem number_next (d : Date) : d.next.number = d.number + 1 := by
  have hmonth := d.month_range
  have hday := d.day_range
  unfold Date.next
  split
  · exact dayNumber_add d.year d.month d.day 1
  · rename_i hlast
    -- the last day of its month
    have hlen : d.day = monthLength d.year d.month := by omega
    split
    · rename_i hyear
      show dayNumber d.year (d.month + 1) 1 = dayNumber d.year d.month d.day + 1
      rw [hlen]
      exact dayNumber_month ⟨hmonth.1, hyear⟩
    · have hdecember : d.month = 12 := by omega
      show dayNumber (d.year + 1) 1 1 = dayNumber d.year d.month d.day + 1
      rw [hlen, hdecember]
      exact dayNumber_year d.year

/-! ## Days since the epoch -/

/-- A day of the calendar; weekday 0 is Sunday. -/
structure Day where
  weekday : Fin 7
  date : Date

def Day.next (d : Day) : Day := ⟨d.weekday + 1, d.date.next⟩

/-- Thursday, 1 January 1970. -/
def epoch : Day := ⟨4, Date.first 1970 1 (by decide)⟩

/-- The day that is reached from the epoch in `n` steps. -/
def dayAt : Nat → Day
  | 0 => epoch
  | n + 1 => (dayAt n).next

theorem number_dayAt (n : Nat) : (dayAt n).date.number = n := by
  induction n with
  | zero => decide
  | succ n ih =>
    show (dayAt n).date.next.number = (n + 1 : Nat)
    rw [number_next, ih, Int.natCast_add]
    rfl

theorem weekday_dayAt (n : Nat) : ((dayAt n).weekday : Nat) = (n + 4) % 7 := by
  induction n with
  | zero => rfl
  | succ n ih =>
    show (((dayAt n).weekday + 1 : Fin 7) : Nat) = (n + 1 + 4) % 7
    rw [Fin.val_add, ih]
    show ((n + 4) % 7 + 1) % 7 = (n + 1 + 4) % 7
    omega

/-! ## Dates and eras -/

/-- The year that begins on 1 March, its month and its day, counted from 0. -/
def Date.marchYear (d : Date) : Int := if d.month ≤ 2 then d.year - 1 else d.year

def Date.marchMonth (d : Date) : Int := if 2 < d.month then d.month - 3 else d.month + 9

def Date.marchDay (d : Date) : Int := (153 * d.marchMonth + 2) / 5 + d.day - 1

theorem Date.number_eq (d : Date) : d.number =
    365 * d.marchYear + d.marchYear / 4 - d.marchYear / 100 + d.marchYear / 400 + d.marchDay -
      719468 := by
  unfold number dayNumber marchYear marchDay marchMonth
  dsimp only
  omega

/-- A year from March has 366 days exactly if the next February has 29. -/
theorem Date.marchDay_range (d : Date) : 0 ≤ d.marchDay ∧ d.marchDay ≤ 365 ∧
    (d.marchDay = 365 → IsLeap (d.marchYear + 1)) := by
  have hmonth := d.month_range
  have hday := d.day_range
  unfold marchDay marchMonth marchYear
  by_cases hearly : d.month ≤ 2
  · rw [if_pos hearly, if_neg (by omega)]
    by_cases hfeb : d.month = 2
    · -- the days of February are the last ones
      rw [hfeb, monthLength, if_pos rfl] at hday
      rw [hfeb]
      by_cases hleap : IsLeap d.year
      · rw [if_pos hleap] at hday
        refine ⟨by omega, by omega, fun _ => ?_⟩
        rw [Int.sub_add_cancel]
        exact hleap
      · rw [if_neg hleap] at hday
        omega
    · have hjan : d.month = 1 := by omega
      have hlen := monthLength_range d.year d.month
      rw [hjan] at hday hlen ⊢
      omega
  · rw [if_neg hearly, if_pos (by omega)]
    rw [monthLength_late (by omega : 3 ≤ d.month ∧ d.month ≤ 12)] at hday
    omega

/-- The month of a day of the year: five months have 153 days. -/
theorem Date.marchMonth_eq (d : Date) : (5 * d.marchDay + 2) / 153 = d.marchMonth := by
  have hmonth := d.month_range
  have hday := d.day_range
  have hlen := monthLength_range d.year d.month
  unfold marchDay
  by_cases hlate : 2 < d.month
  · have hm : d.marchMonth = d.month - 3 := if_pos hlate
    rw [monthLength_late (by omega : 3 ≤ d.month ∧ d.month ≤ 12)] at hday
    rw [hm]
    omega
  · have hm : d.marchMonth = d.month + 9 := if_neg hlate
    have hcase : d.month = 1 ∨ d.month = 2 ∧ d.day ≤ 29 := by
      by_cases hjan : d.month = 1
      · exact Or.inl hjan
      · have hfeb : d.month = 2 := by omega
        refine Or.inr ⟨hfeb, ?_⟩
        rw [hfeb, monthLength, if_pos rfl] at hday
        split at hday <;> omega
    omega

/-- Every date is a day of an era. -/
theorem Date.exists_eraDay (d : Date) : ∃ (era : Int) (e : EraDay),
    d.marchYear = e.years + era * 400 ∧ d.marchDay = e.day ∧
      d.number = era * 146097 + e.count - 719468 := by
  rcases d.marchDay_range with ⟨hlow, hhigh, hleap⟩
  have hyears : d.marchYear % 400 = 100 * (d.marchYear % 400 / 100) +
      4 * (d.marchYear % 100 / 4) + d.marchYear % 4 := by omega
  have hnumber := d.number_eq
  unfold IsLeap at hleap
  generalize d.marchYear = y at *
  generalize d.marchDay = day at *
  refine ⟨y / 400, ⟨y % 400 / 100, y % 100 / 4, y % 4, day, by omega, by omega, by omega,
    ⟨hlow, hhigh⟩, ?_⟩, ?_, rfl, ?_⟩
  · intro hlast
    have hl := hleap hlast
    omega
  · unfold EraDay.years
    dsimp only
    omega
  · rw [hnumber]
    unfold EraDay.count
    dsimp only
    omega

end Gregorian
