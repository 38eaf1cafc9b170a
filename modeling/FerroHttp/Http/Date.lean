import FerroHttp.Lib.Exec
import FerroHttp.Lib.Text

/-!
# Http.Date — IMF-fixdate formatting and parsing

`httpDate` prints a Unix timestamp as an IMF-fixdate and `parseHttpDate` reads one.
The calendar computation is on signed day counts, with the source's truncating
division. A parsed year is any `i64`, so reading can overflow; printing cannot.
-/

namespace FerroHttp

open Exec Text

def weekdays : List String := ["Sun", "Mon", "Tue", "Wed", "Thu", "Fri", "Sat"]

def months : List String :=
  ["Jan", "Feb", "Mar", "Apr", "May", "Jun", "Jul", "Aug", "Sep", "Oct", "Nov", "Dec"]

/-- A day count since the Unix epoch as a civil (year, month, day). -/
def civilFromDays (days : Int) : Int × Int × Int :=
  let z := days + 719468
  let era := (if 0 ≤ z then z else z - 146096).tdiv 146097
  let doe := z - era * 146097
  let yoe := (doe - doe.tdiv 1460 + doe.tdiv 36524 - doe.tdiv 146096).tdiv 365
  let year := yoe + era * 400
  let doy := doe - (365 * yoe + yoe.tdiv 4 - yoe.tdiv 100)
  let mp := (5 * doy + 2).tdiv 153
  let day := doy - (153 * mp + 2).tdiv 5 + 1
  let month := if mp < 10 then mp + 3 else mp - 9
  (if month ≤ 2 then year + 1 else year, month, day)

/-- A number in decimal, zero-padded on the left to `width` characters. -/
def padded (width : Nat) (s : String) : String :=
  String.ofList (List.replicate (width - s.length) '0') ++ s

/-- A Unix timestamp in seconds, e.g. `Sun, 06 Nov 1994 08:49:37 GMT`. -/
def httpDate (unixSecs : Nat) : String :=
  let days : Int := (unixSecs / 86400 : Nat)
  let secsOfDay := unixSecs % 86400
  let hour := secsOfDay / 3600
  let minute := secsOfDay % 3600 / 60
  let second := secsOfDay % 60
  -- 1970-01-01 was a Thursday; weekday 0 is Sunday
  let weekday := ((days.tmod 7 + 4).tmod 7).toNat
  let (year, month, day) := civilFromDays days
  weekdays.getD weekday "" ++ ", " ++ padded 2 (toString day) ++ " " ++
    months.getD (month - 1).toNat "" ++ " " ++ padded 4 (toString year) ++ " " ++
    padded 2 (toString hour) ++ ":" ++ padded 2 (toString minute) ++ ":" ++
    padded 2 (toString second) ++ " GMT"

example : httpDate 1582934400 = "Sat, 29 Feb 2020 00:00:00 GMT" := by decide

/-- A civil (year, month, day) as a day count since the Unix epoch. -/
def daysFromCivil (t : Target) (year month day : Int) : Outcome Empty Int := do
  let y ← if month ≤ 2 then t.i64 (year - 1) else pure year
  let shifted ← if 0 ≤ y then pure y else t.i64 (y - 399)
  let era := shifted.tdiv 400
  -- a multiple of 400 next to `y`, and a few centuries: only the sums below can overflow
  let yoe ← t.i64 (y - era * 400)
  let mp := if 2 < month then month - 3 else month + 9
  let doy := (153 * mp + 2).tdiv 5 + day - 1
  let doe := yoe * 365 + yoe.tdiv 4 - yoe.tdiv 100 + doy
  let eraDays ← t.i64 (era * 146097)
  let days ← t.i64 (eraDays + doe)
  t.i64 (days - 719468)

/-- The seconds of an IMF-fixdate's fields. -/
def secondsOf (t : Target) (year month day : Int) (hour minute second : Nat) :
    Outcome Empty (Option Nat) := do
  let days ← daysFromCivil t year month day
  if days < 0 then pure none
  else
    let daySecs ← t.u64 (days.toNat * 86400)
    let withHour ← t.u64 (daySecs + hour * 3600)
    let withMinute ← t.u64 (withHour + minute * 60)
    let secs ← t.u64 (withMinute + second)
    pure (some secs)

/-- Read an IMF-fixdate, `Wdy, DD Mon YYYY HH:MM:SS GMT`; the weekday is not looked at. -/
def parseHttpDate (t : Target) (value : String) : Outcome Empty (Option Nat) :=
  match split ' ' value with
  | [_, day, month, year, time, zone] =>
    match parseSigned i64Bound day, months.findIdx? (· == month), parseSigned i64Bound year,
      split ':' time with
    | some day, some month, some year, [hour, minute, second] =>
      match parseUnsigned u64Values hour, parseUnsigned u64Values minute,
        parseUnsigned u64Values second with
      | some hour, some minute, some second =>
        if zone ≠ "GMT" then pure none
        else if !(1 ≤ day && day ≤ 31) || 23 < hour || 59 < minute || 60 < second then pure none
        else secondsOf t year (month + 1) day hour minute second
      | _, _, _ => pure none
    | _, _, _, _ => pure none
  | _ => pure none

example : parseHttpDate ⟨.w64, true⟩ "Fri, 13 Feb 2009 23:31:30 GMT" = .ok (some 1234567890) := by
  decide

end FerroHttp
