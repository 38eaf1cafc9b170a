/-!
# Gregorian — the days of a 400-year era

The Gregorian calendar repeats after 400 years, and with years that begin on 1 March
the leap day is the last one of its year. An `EraDay` is a day of such an era by
century, four-year cycle, year and day of the year, with the leap rule in its type.

1. `EraDay.exists_of_count`: every day number of an era is one;
2. `EraDay.years_eq`: the division formula finds its year;
3. `monthDay_bounds`: the day of the year falls into a month.
-/

namespace Gregorian

/-- A day of an era. Only the last year of a cycle has a day 365, and the last cycle of
a century has one only in the last century. -/
structure EraDay where
  century : Int
  cycle : Int
  year : Int
  day : Int
  century_range : 0 ≤ century ∧ century ≤ 3
  cycle_range : 0 ≤ cycle ∧ cycle ≤ 24
  year_range : 0 ≤ year ∧ year ≤ 3
  day_range : 0 ≤ day ∧ day ≤ 365
  leap : day = 365 → year = 3 ∧ (cycle < 24 ∨ century = 3)

namespace EraDay

/-- The full years of the era before the day. -/
def years (e : EraDay) : Int := 100 * e.century + 4 * e.cycle + e.year

/-- The days of the era before the day. -/
def count (e : EraDay) : Int := 36524 * e.century + 1461 * e.cycle + 365 * e.year + e.day

theorem years_range (e : EraDay) : 0 ≤ e.years ∧ e.years ≤ 399 := by
  have hc := e.century_range
  have hq := e.cycle_range
  have hy := e.year_range
  unfold years
  omega

theorem count_range (e : EraDay) : 0 ≤ e.count ∧ e.count < 146097 := by
  have hc := e.century_range
  have hq := e.cycle_range
  have hy := e.year_range
  have hd := e.day_range
  have hleap := e.leap
  unfold count
  omega

/-- The days of the full years, and the day. -/
theorem count_eq (e : EraDay) :
    e.count = 365 * e.years + e.years / 4 - e.years / 100 + e.day := by
  have hc := e.century_range
  have hq := e.cycle_range
  have hy := e.year_range
  have hfour : e.years / 4 = 25 * e.century + e.cycle := by
    unfold years
    omega
  have hhundred : e.years / 100 = e.century := by
    unfold years
    omega
  rw [hfour, hhundred, count, years]
  omega

/-- Every day number of an era is that of a day. -/
theorem exists_of_count {n : Int} (hn : 0 ≤ n ∧ n < 146097) : ∃ e : EraDay, e.count = n := by
  -- the day behind the last full century, cycle or year belongs to the one before it
  have hcentury : ∃ c r : Int, n = 36524 * c + r ∧ 0 ≤ c ∧ c ≤ 3 ∧ 0 ≤ r ∧ r ≤ 36524 ∧
      (r = 36524 → c = 3) := by
    by_cases hlast : n = 146096
    · exact ⟨3, 36524, by omega, by omega, by omega, by omega, by omega, fun _ => rfl⟩
    · exact ⟨n / 36524, n % 36524, by omega, by omega, by omega, by omega, by omega, by omega⟩
  rcases hcentury with ⟨c, r, hr, hc0, hc3, hr0, hr1, hlast⟩
  have hyear : ∃ y d : Int, r % 1461 = 365 * y + d ∧ 0 ≤ y ∧ y ≤ 3 ∧ 0 ≤ d ∧ d ≤ 365 ∧
      (d = 365 → y = 3 ∧ r % 1461 = 1460) := by
    by_cases hleap : r % 1461 = 1460
    · exact ⟨3, 365, by omega, by omega, by omega, by omega, by omega, fun _ => ⟨rfl, hleap⟩⟩
    · exact ⟨r % 1461 / 365, r % 1461 % 365, by omega, by omega, by omega, by omega, by omega,
        by omega⟩
  rcases hyear with ⟨y, d, hd, hy0, hy3, hd0, hd1, hleap⟩
  refine ⟨⟨c, r / 1461, y, d, ⟨hc0, hc3⟩, by omega, ⟨hy0, hy3⟩, ⟨hd0, hd1⟩, ?_⟩, ?_⟩
  · intro h
    have hh := hleap h
    refine ⟨hh.1, ?_⟩
    by_cases hcycle : r / 1461 < 24
    · exact .inl hcycle
    · exact .inr (hlast (by omega))
  · unfold count
    dsimp only
    omega

/-- The year of a day number: the leap days are taken out, and years of 365 days are
left. -/
theorem years_eq (e : EraDay) :
    (e.count - e.count / 1460 + e.count / 36524 - e.count / 146096) / 365 = e.years := by
  rcases e with ⟨c, q, y, d, hc, hq, hy, hd, hleap⟩
  have hcount : count ⟨c, q, y, d, hc, hq, hy, hd, hleap⟩ = 36524 * c + 1461 * q + 365 * y + d :=
    rfl
  have hyears : years ⟨c, q, y, d, hc, hq, hy, hd, hleap⟩ = 100 * c + 4 * q + y := rfl
  rw [hyears]
  generalize count ⟨c, q, y, d, hc, hq, hy, hd, hleap⟩ = n at hcount ⊢
  have hcycles : n / 1460 = 25 * c + q + if 1460 ≤ 24 * c + q + 365 * y + d then 1 else 0 := by
    split <;> omega
  have hcenturies : n / 36524 = c + if 36524 ≤ 1461 * q + 365 * y + d then 1 else 0 := by
    split <;> omega
  have hera : n / 146096 = if 146096 ≤ n then 1 else 0 := by
    split <;> omega
  rw [hcycles, hcenturies, hera]
  split <;> split <;> split <;> omega

end EraDay

/-- Five months of 153 days, counted from March: the month and the day of the month of a
day of the year. -/
theorem monthDay_bounds {day : Int} (h : 0 ≤ day ∧ day ≤ 365) :
    0 ≤ (5 * day + 2) / 153 ∧ (5 * day + 2) / 153 ≤ 11 ∧
      1 ≤ day - (153 * ((5 * day + 2) / 153) + 2) / 5 + 1 ∧
      day - (153 * ((5 * day + 2) / 153) + 2) / 5 + 1 ≤ 31 := by
  refine ⟨by omega, by omega, by omega, by omega⟩

end Gregorian
