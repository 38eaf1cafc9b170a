import FerroHttp.Http.Calendar

/-!
# Http.DateReading — which dates are read

`parseHttpDate` reads five numbers and the name of a month, checks all but the year
against fixed bounds, and counts the days.

1. `daysFromCivil_inv`: a checked build comes to the day number only when that is within
   the bounds of an `i64`;
2. `parseHttpDate_unread`: a date is read field by field (`DateRead`), or nothing is;
3. `date_true_iff`: what is read is a date of the calendar, spelled in digits, and its
   second, exactly when `Sound` says so of the numbers that were read.
   `thirtyFirstOfFebruary_read` is no date.
-/

namespace FerroHttp

open Exec Text Gregorian

/-! ## Checked counts -/

section Count

variable {t : Target} {year month day m n : Int}

theorem i64_inv (hchecked : t.checked = true) (h : (t.i64 n : Outcome Empty Int) = .ok m) :
    (-9223372036854775808 ≤ n ∧ n < 9223372036854775808) ∧ m = n := by
  unfold Target.i64 at h
  split at h
  · rename_i hrange
    cases h
    exact ⟨hrange, rfl⟩
  · -- a checked build panics
    cases h

/-- A checked count that returns is within the bounds. -/
theorem daysFromCivil_inv (hchecked : t.checked = true) (hmonth : 1 ≤ month ∧ month ≤ 12)
    (hday : 1 ≤ day ∧ day ≤ 31) (h : daysFromCivil t year month day = .ok m) :
    -9223372036854775808 ≤ dayNumber year month day ∧ m = dayNumber year month day := by
  rcases @era_bounds year month day hmonth hday _ rfl with ⟨doe, _, _, hnumber, hdoe⟩
  rw [daysFromCivil_eq] at h
  rcases Outcome.bind_eq_ok.mp h with ⟨y, hy, h⟩
  have hyear : y = if month ≤ 2 then year - 1 else year := by
    split at hy
    · rename_i hearly
      rw [if_pos hearly]
      exact (i64_inv hchecked hy).2
    · rename_i hlate
      rw [if_neg hlate]
      cases hy
      rfl
  rcases Outcome.bind_eq_ok.mp h with ⟨shifted, hshifted, h⟩
  have hshift : shifted = if 0 ≤ y then y else y - 399 := by
    split at hshifted
    · rename_i hpos
      rw [if_pos hpos]
      cases hshifted
      rfl
    · rename_i hneg
      rw [if_neg hneg]
      exact (i64_inv hchecked hshifted).2
  rw [← hyear] at hnumber hdoe
  rw [hshift, tdiv_era] at h
  rcases Outcome.bind_eq_ok.mp h with ⟨yoe, hyoe, h⟩
  rcases Outcome.bind_eq_ok.mp h with ⟨eraDays, hera, h⟩
  rw [(i64_inv hchecked hyoe).2, (i64_inv hchecked hera).2, hdoe] at h
  rcases Outcome.bind_eq_ok.mp h with ⟨days, hdays, h⟩
  rw [(i64_inv hchecked hdays).2, hnumber] at h
  exact ⟨(i64_inv hchecked h).1.1, (i64_inv hchecked h).2⟩

theorem u64_inv {n r : Nat} (hchecked : t.checked = true)
    (h : (t.u64 n : Outcome Empty Nat) = .ok r) : n < u64Values ∧ r = n := by
  unfold Target.u64 at h
  split at h
  · rename_i hlt
    cases h
    exact ⟨hlt, rfl⟩
  · cases h

/-! ## Seconds -/

/-- The seconds from 1 January 1970 on. -/
def unixSeconds (year month day : Int) (hour minute second : Nat) : Nat :=
  (dayNumber year month day).toNat * 86400 + hour * 3600 + minute * 60 + second

variable {hour minute second : Nat}

theorem secondsOf_negative (hmonth : 1 ≤ month ∧ month ≤ 12) (hday : 1 ≤ day ∧ day ≤ 31)
    (hlow : -9223372036854775808 ≤ dayNumber year month day)
    (hneg : dayNumber year month day < 0) :
    secondsOf t year month day hour minute second = .ok none := by
  rw [secondsOf, daysFromCivil_of_bounds hmonth hday hlow (by omega), Outcome.ok_bind,
    if_pos hneg]
  rfl

theorem secondsOf_fits (hmonth : 1 ≤ month ∧ month ≤ 12) (hday : 1 ≤ day ∧ day ≤ 31)
    (hpos : 0 ≤ dayNumber year month day)
    (hfits : unixSeconds year month day hour minute second < u64Values) :
    secondsOf t year month day hour minute second =
      .ok (some (unixSeconds year month day hour minute second)) := by
  have hu : u64Values = 18446744073709551616 := rfl
  unfold unixSeconds at hfits ⊢
  have hcount : daysFromCivil t year month day = .ok (dayNumber year month day) :=
    daysFromCivil_of_bounds hmonth hday (by omega) (by omega)
  -- a partial sum is no larger than the whole
  have hminute := Nat.lt_of_le_of_lt (Nat.le_add_right _ _) hfits
  have hhour := Nat.lt_of_le_of_lt (Nat.le_add_right _ _) hminute
  have hdays := Nat.lt_of_le_of_lt (Nat.le_add_right _ _) hhour
  rw [secondsOf, hcount, Outcome.ok_bind, if_neg (by omega), u64_of_lt hdays, Outcome.ok_bind,
    u64_of_lt hhour, Outcome.ok_bind, u64_of_lt hminute, Outcome.ok_bind, u64_of_lt hfits]
  rfl

/-- What a checked build returns. -/
theorem secondsOf_inv {r : Option Nat} (hchecked : t.checked = true)
    (hmonth : 1 ≤ month ∧ month ≤ 12) (hday : 1 ≤ day ∧ day ≤ 31)
    (h : secondsOf t year month day hour minute second = .ok r) :
    -9223372036854775808 ≤ dayNumber year month day ∧
      (0 ≤ dayNumber year month day →
        unixSeconds year month day hour minute second < u64Values) := by
  rcases Outcome.bind_eq_ok.mp h with ⟨days, hdays, h⟩
  rcases daysFromCivil_inv hchecked hmonth hday hdays with ⟨hlow, rfl⟩
  refine ⟨hlow, ?_⟩
  intro hpos
  rw [if_neg (by omega)] at h
  rcases Outcome.bind_eq_ok.mp h with ⟨daySecs, hdaySecs, h⟩
  rcases Outcome.bind_eq_ok.mp h with ⟨withHour, hhour, h⟩
  rcases Outcome.bind_eq_ok.mp h with ⟨withMinute, hminute, h⟩
  rcases Outcome.bind_eq_ok.mp h with ⟨secs, hsecs, _⟩
  have hsum := (u64_inv hchecked hsecs).1
  rw [(u64_inv hchecked hminute).2, (u64_inv hchecked hhour).2,
    (u64_inv hchecked hdaySecs).2] at hsum
  exact hsum

/-- The days of a year are counted from 0 on exactly from 1970 on. -/
theorem dayNumber_nonneg_iff (hmonth : 1 ≤ month ∧ month ≤ 12) (hday : 1 ≤ day ∧ day ≤ 31) :
    0 ≤ dayNumber year month day ↔ 1970 ≤ year := by
  by_cases hearly : month ≤ 2
  · rw [dayNumber_early hearly]
    omega
  · rw [dayNumber_late (by omega)]
    omega

end Count

/-! ## What is read -/

/-- A value has the texts of one date. -/
theorem DateTexts.unique {value : String} (x y : DateTexts value) : x = y := by
  rcases x with ⟨wx, dx, mx, yx, tx, hx, nx, sx, hvalue, htime⟩
  rcases y with ⟨wy, dy, my, yy, ty, hy, ny, sy, hvalue', htime'⟩
  rw [hvalue'] at hvalue
  injection hvalue with hw hvalue
  injection hvalue with hd hvalue
  injection hvalue with hm hvalue
  injection hvalue with hyear hvalue
  injection hvalue with ht
  subst hw hd hm hyear ht
  rw [htime'] at htime
  injection htime with hh htime
  injection htime with hn htime
  injection htime with hs
  subst hh hn hs
  rfl

namespace DateRead

variable {value : String}

theorem month_range (f : DateRead value) :
    f.monthIndex < 12 ∧ months.getD f.monthIndex "" = f.month := by
  have hmonth := f.month_eq
  rw [List.findIdx?_eq_some_iff_getElem] at hmonth
  rcases hmonth with ⟨hlt, heq, _⟩
  refine ⟨hlt, ?_⟩
  rw [List.getD_eq_getElem?_getD, List.getElem?_eq_getElem hlt]
  exact beq_iff_eq.mp heq

end DateRead

/-- Nothing else is counted. -/
theorem parseHttpDate_unread {t : Target} {value : String} (h : IsEmpty (DateRead value)) :
    parseHttpDate t value = .ok none := by
  unfold parseHttpDate
  split
  · rename_i weekday day month year time zone hvalue
    split
    · rename_i dayNo monthIndex yearNo hour minute second hday hmonth hyear htime
      split
      · rename_i hourNo minuteNo secondNo hhour hminute hsecond
        split
        · rfl
        · rename_i hzone
          split
          · rfl
          · rename_i hranges
            simp only [Bool.or_eq_true, Bool.not_eq_true', Bool.and_eq_false_iff,
              decide_eq_true_eq, decide_eq_false_iff_not] at hranges
            rw [not_not.mp hzone] at hvalue
            exact (h.false ⟨⟨weekday, day, month, year, time, hour, minute, second, hvalue,
              htime⟩, dayNo, monthIndex, yearNo, hourNo, minuteNo, secondNo, hday, hmonth, hyear,
              hhour, hminute, hsecond, by omega, by omega⟩).elim
      · rfl
    · rfl
  · rfl

/-! ## True dates -/

/-- The texts are those of a date of the calendar and a time of its day: decimal numerals
and the name of the month. -/
structure DateTexts.Names {value : String} (x : DateTexts value) (d : Date)
    (hour minute second : Nat) : Prop where
  day_text : ∃ n : Nat, d.day = n ∧ IsDecimal x.day n
  month_text : months.getD (d.month - 1).toNat "" = x.month
  year_text : ∃ n : Nat, d.year = n ∧ IsDecimal x.year n
  hour_text : IsDecimal x.hour hour
  minute_text : IsDecimal x.minute minute
  second_text : IsDecimal x.second second
  time_range : hour ≤ 23 ∧ minute ≤ 59 ∧ second ≤ 60

/-- The text names the second: second 60 is the first one of the next minute. -/
def NamesSecond (value : String) (s : Nat) : Prop :=
  ∃ (x : DateTexts value) (n hour minute second : Nat),
    x.Names (dayAt n).date hour minute second ∧
      s = n * 86400 + hour * 3600 + minute * 60 + second

/-- Nothing overflows, and what is read is what the text names. -/
structure ReadsTrue (value : String) : Prop where
  returns : ∀ w, (parseHttpDate ⟨w, true⟩ value).Returns
  names : ∀ t s, parseHttpDate t value = .ok (some s) → NamesSecond value s

/-- From 1970 on: digits only, a day of the month, and a second that fits. Before, only
the day number has to. -/
structure DateRead.Sound {value : String} (f : DateRead value) : Prop where
  low : -9223372036854775808 ≤ dayNumber f.yearNo (f.monthIndex + 1) f.dayNo
  digits : 1970 ≤ f.yearNo → ∀ field ∈ [f.day, f.year, f.hour, f.minute, f.second],
    ∀ c ∈ field.toList, c.isDigit = true
  exists_day : 1970 ≤ f.yearNo → f.dayNo ≤ monthLength f.yearNo (f.monthIndex + 1)
  fits : 1970 ≤ f.yearNo → unixSeconds f.yearNo (f.monthIndex + 1) f.dayNo f.hourNo f.minuteNo
    f.secondNo < u64Values

/-- A date is reached from the epoch after as many days as its number says. -/
theorem dayAt_number (d : Date) (h : 0 ≤ d.number) : (dayAt d.number.toNat).date = d := by
  have hcivil := civilFromDays_dayAt d.number.toNat
  rw [Int.toNat_of_nonneg h, civilFromDays_number d h] at hcivil
  injection hcivil with hyear hcivil
  injection hcivil with hmonth hday
  generalize (dayAt d.number.toNat).date = d' at hyear hmonth hday
  rcases d with ⟨year, month, day, hm, hd⟩
  rcases d' with ⟨year', month', day', hm', hd'⟩
  dsimp only at hyear hmonth hday
  subst hyear hmonth hday
  rfl

namespace DateRead

variable {value : String} {f : DateRead value}

theorem month_bounds (f : DateRead value) :
    1 ≤ (f.monthIndex : Int) + 1 ∧ (f.monthIndex : Int) + 1 ≤ 12 := by
  have hmonth := f.month_range.1
  omega

/-- The texts of a sound date name it. -/
theorem Sound.names (h : f.Sound) (hyear : 1970 ≤ f.yearNo) :
    NamesSecond value (unixSeconds f.yearNo (f.monthIndex + 1) f.dayNo f.hourNo f.minuteNo
      f.secondNo) := by
  have hi : 0 < i64Bound := by decide
  have hu : 0 < u64Values := by decide
  have hdigits := h.digits hyear
  simp only [List.forall_mem_cons] at hdigits
  rcases hdigits with ⟨hday, hyears, hhour, hminute, hsecond, _⟩
  have hrange := f.day_range
  have hnumber := (dayNumber_nonneg_iff f.month_bounds hrange).mpr hyear
  have hdate : (dayAt (dayNumber f.yearNo (f.monthIndex + 1) f.dayNo).toNat).date =
      ⟨f.yearNo, f.monthIndex + 1, f.dayNo, f.month_bounds, hrange.1, h.exists_day hyear⟩ :=
    dayAt_number ⟨f.yearNo, f.monthIndex + 1, f.dayNo, f.month_bounds, hrange.1,
      h.exists_day hyear⟩ hnumber
  refine ⟨f.toDateTexts, (dayNumber f.yearNo (f.monthIndex + 1) f.dayNo).toNat, f.hourNo,
    f.minuteNo, f.secondNo, ?_, rfl⟩
  rw [hdate]
  constructor
  · exact IsDecimal.of_parseSigned hi hday f.day_eq
  · have hindex : ((f.monthIndex : Int) + 1 - 1).toNat = f.monthIndex := by omega
    rw [hindex]
    exact f.month_range.2
  · exact IsDecimal.of_parseSigned hi hyears f.year_eq
  · exact IsDecimal.of_parseUnsigned hu hhour f.hour_eq
  · exact IsDecimal.of_parseUnsigned hu hminute f.minute_eq
  · exact IsDecimal.of_parseUnsigned hu hsecond f.second_eq
  · exact f.time_range

/-- A date that its texts name is made of digits, and its day exists. -/
theorem digits_of_names {s : Nat} (f : DateRead value) (h : NamesSecond value s) :
    (∀ field ∈ [f.day, f.year, f.hour, f.minute, f.second], ∀ c ∈ field.toList,
      c.isDigit = true) ∧ f.dayNo ≤ monthLength f.yearNo (f.monthIndex + 1) := by
  have hi : 0 < i64Bound := by decide
  rcases h with ⟨x, n, hour, minute, second, hnames, _⟩
  have hx : x = f.toDateTexts := x.unique f.toDateTexts
  subst hx
  rcases hnames.day_text with ⟨day, hday, hdayText⟩
  rcases hnames.year_text with ⟨year, hyear, hyearText⟩
  constructor
  · simp only [List.forall_mem_cons]
    exact ⟨hdayText.digits, hyearText.digits, hnames.hour_text.digits, hnames.minute_text.digits,
      hnames.second_text.digits, by simp⟩
  · -- what was read is what the texts name
    rcases IsDecimal.of_parseSigned hi hdayText.digits f.day_eq with ⟨day', hday', hdayText'⟩
    rcases IsDecimal.of_parseSigned hi hyearText.digits f.year_eq with ⟨year', hyear', hyearText'⟩
    have hrange := (dayAt n).date.month_range
    have hlen := (dayAt n).date.day_range.2
    have hindex := (monthName_ok ((dayAt n).date.month - 1).toNat (by omega)).1
    rw [hnames.month_text, f.month_eq] at hindex
    injection hindex with hindex
    have hmonth : (f.monthIndex : Int) + 1 = (dayAt n).date.month := by omega
    rw [hday', hyear', hmonth, hdayText'.unique hdayText, hyearText'.unique hyearText, ← hday,
      ← hyear]
    exact hlen

end DateRead

/-- A value that every build reads alike. -/
theorem readsTrue_of_eq {value : String} {r : Option Nat}
    (h : ∀ t, parseHttpDate t value = .ok r) (hr : ∀ s, r = some s → NamesSecond value s) :
    ReadsTrue value := by
  constructor
  · intro w
    rw [h]
    exact trivial
  · intro t s hs
    rw [h] at hs
    injection hs with hs
    exact hr s hs

namespace DateRead

variable {value : String} {f : DateRead value}

theorem Sound.readsTrue (h : f.Sound) : ReadsTrue value := by
  have hsign := @dayNumber_nonneg_iff f.yearNo _ _ f.month_bounds f.day_range
  by_cases hyear : 1970 ≤ f.yearNo
  · refine readsTrue_of_eq (fun t => f.parseHttpDate_eq.trans (secondsOf_fits f.month_bounds
      f.day_range (hsign.mpr hyear) (h.fits hyear))) ?_
    intro s hs
    injection hs with hs
    rw [← hs]
    exact h.names hyear
  · -- before the epoch
    have hneg : ¬ 0 ≤ dayNumber f.yearNo (f.monthIndex + 1) f.dayNo := by
      rw [hsign]
      exact hyear
    refine readsTrue_of_eq (fun t => f.parseHttpDate_eq.trans (secondsOf_negative f.month_bounds
      f.day_range h.low (by omega))) ?_
    intro s hs
    cases hs

theorem sound_of_readsTrue (f : DateRead value) (h : ReadsTrue value) : f.Sound := by
  have hsign := @dayNumber_nonneg_iff f.yearNo _ _ f.month_bounds f.day_range
  have hreturns := h.returns .w64
  have hnames := h.names ⟨.w64, true⟩
  rw [f.parseHttpDate_eq] at hreturns hnames
  cases hresult : secondsOf ⟨.w64, true⟩ f.yearNo (f.monthIndex + 1) f.dayNo f.hourNo f.minuteNo
    f.secondNo with
  | ok r =>
    rcases secondsOf_inv rfl f.month_bounds f.day_range hresult with ⟨hlow, hhigh⟩
    have htrue : 1970 ≤ f.yearNo → _ := fun hyear =>
      f.digits_of_names (hnames _ (secondsOf_fits f.month_bounds f.day_range
        (hsign.mpr hyear) (hhigh (hsign.mpr hyear))))
    exact ⟨hlow, fun hyear => (htrue hyear).1, fun hyear => (htrue hyear).2,
      fun hyear => hhigh (hsign.mpr hyear)⟩
  | err e => exact nomatch e
  | panic =>
    rw [hresult] at hreturns
    exact hreturns.elim
  | diverge =>
    rw [hresult] at hreturns
    exact hreturns.elim

end DateRead

/-- What is read from a value is true, and nothing overflows, exactly when every date that
can be read there is sound: from a value without one nothing is read. -/
theorem date_true_iff (value : String) : ReadsTrue value ↔ ∀ f : DateRead value, f.Sound := by
  constructor
  · intro h f
    exact f.sound_of_readsTrue h
  · intro h
    by_cases hread : IsEmpty (DateRead value)
    · apply readsTrue_of_eq fun t => parseHttpDate_unread hread
      intro s hs
      cases hs
    · rcases not_isEmpty_iff.mp hread with ⟨f⟩
      exact (h f).readsTrue

/-- It is read as 3 March. -/
def thirtyFirstOfFebruary : String := "Sun, 31 Feb 2021 00:00:00 GMT"

def thirtyFirstRead : DateRead thirtyFirstOfFebruary where
  weekday := "Sun,"
  day := "31"
  month := "Feb"
  year := "2021"
  time := "00:00:00"
  hour := "00"
  minute := "00"
  second := "00"
  value_eq := by decide
  time_eq := by decide
  dayNo := 31
  monthIndex := 1
  yearNo := 2021
  hourNo := 0
  minuteNo := 0
  secondNo := 0
  day_eq := by decide
  month_eq := by decide
  year_eq := by decide
  hour_eq := by decide
  minute_eq := by decide
  second_eq := by decide
  day_range := by decide
  time_range := by decide

theorem thirtyFirstOfFebruary_read : ¬ ReadsTrue thirtyFirstOfFebruary := by
  intro h
  have hresult : parseHttpDate ⟨.w64, true⟩ thirtyFirstOfFebruary = .ok (some 1614729600) := by
    decide
  have hlast := (thirtyFirstRead.digits_of_names (h.names _ _ hresult)).2
  have hlong : ¬ (31 : Int) ≤ monthLength 2021 2 := by decide
  exact hlong hlast

-- a sign is read, and a year that is too large is not refused
example : parseHttpDate ⟨.w64, true⟩ "Sun, +6 Nov 1994 08:49:37 GMT" = .ok (some 784111777) := by
  decide

example : parseHttpDate ⟨.w64, true⟩ "Sun, 06 Nov 9223372036854775807 08:49:37 GMT" = .panic := by
  decide

end FerroHttp
