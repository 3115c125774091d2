import SafeKiddo.Lib.ByteString

/-!
# Dates and times

`boostTime.cpp`: reading the dates and times that the database prints, with `strptime` of the C
library and the calendar of `boost::gregorian`. A moment is counted in microseconds and a date in
days of the Julian day number; the special value `not_a_date_time` is `none`.
-/

namespace SafeKiddo

open ByteString

/-! ## 1. `strptime` -/

/-- The fields of `struct tm`, with the year and the month as written. -/
structure Tm where
  year : Nat
  month : Nat
  mday : Nat
  hour : Nat
  min : Nat
  sec : Nat

namespace Strptime

def isspace (c : Byte) : Bool := c = chr ' ' || (chr '\t' ≤ c && c ≤ chr '\r')

def digitValue (c : Byte) : Nat := c.val - (chr '0').val

/-- At most `n` more digits, as long as the number can stay below `hi`. -/
def readDigits (hi : Nat) : Nat → Nat → Bytes → Nat × Bytes
  | n + 1, val, c :: rp =>
    if val * 10 ≤ hi && isdigit c then readDigits hi n (val * 10 + digitValue c) rp
    else (val, c :: rp)
  | _, val, rp => (val, rp)

/-- A number of the range after optional white space, and what follows it. -/
def getNumber (lo hi n : Nat) (rp : Bytes) : Option (Nat × Bytes) :=
  match rp.dropWhile isspace with
  | [] => none
  | c :: rp =>
    if isdigit c then
      let (val, rp) := readDigits hi (n - 1) (digitValue c) rp
      if lo ≤ val ∧ val ≤ hi then some (val, rp) else none
    else
      none

/-- One conversion of the format. -/
def convert (conversion : Byte) (tm : Tm) (rp : Bytes) : Option (Tm × Bytes) :=
  if conversion = chr 'Y' then
    (getNumber 0 9999 4 rp).map fun (v, rp) => ({ tm with year := v }, rp)
  else if conversion = chr 'm' then
    (getNumber 1 12 2 rp).map fun (v, rp) => ({ tm with month := v }, rp)
  else if conversion = chr 'd' then
    (getNumber 1 31 2 rp).map fun (v, rp) => ({ tm with mday := v }, rp)
  else if conversion = chr 'H' then
    (getNumber 0 23 2 rp).map fun (v, rp) => ({ tm with hour := v }, rp)
  else if conversion = chr 'M' then
    (getNumber 0 59 2 rp).map fun (v, rp) => ({ tm with min := v }, rp)
  else if conversion = chr 'S' then
    (getNumber 0 61 2 rp).map fun (v, rp) => ({ tm with sec := v }, rp)
  else
    none

/-- `strptime(rp, format, &tm)`. What follows the part the format describes is not looked at. -/
def strptime : Bytes → Bytes → Tm → Option Tm
  | [], _, tm => some tm
  | c :: format, rp, tm =>
    if c = chr '%' then
      match format with
      | [] => none
      | conversion :: format =>
        (convert conversion tm rp).bind fun (tm, rp) => strptime format rp tm
    else if isspace c then
      strptime format (rp.dropWhile isspace) tm
    else
      match rp with
      | [] => none
      | d :: rp => if c = d then strptime format rp tm else none

end Strptime

open Strptime

/-- What `tm` holds before a call. No caller reads a field that its format does not set. -/
def Tm.unset : Tm := ⟨0, 0, 0, 0, 0, 0⟩

/-! ## 2. The calendar -/

def isLeapYear (year : Nat) : Bool := year % 4 = 0 && (year % 100 ≠ 0 || year % 400 = 0)

def endOfMonthDay (year month : Nat) : Nat :=
  match month with
  | 2 => if isLeapYear year then 29 else 28
  | 4 | 6 | 9 | 11 => 30
  | _ => 31

/-- `gregorian_calendar::day_number`. -/
def dayNumber (year month day : Nat) : Int :=
  let a : Int := (14 - month) / 12
  let y : Int := year + 4800 - a
  let m : Int := month + 12 * a - 3
  day + (153 * m + 2) / 5 + 365 * y + y / 4 - y / 100 + y / 400 - 32045

/-- The constructor of `boost::gregorian::date` throws when the date does not exist. -/
def dateFromTm (tm : Tm) : Checked Int := do
  assert (1400 ≤ tm.year ∧ tm.year ≤ 9999)
  assert (1 ≤ tm.month ∧ tm.month ≤ 12)
  assert (1 ≤ tm.mday ∧ tm.mday ≤ endOfMonthDay tm.year tm.month)
  return dayNumber tm.year tm.month tm.mday

/-- Microseconds of a day. -/
def ticksPerDay : Int := 86400000000

def timeDuration (hours minutes seconds : Nat) : Int :=
  ((hours * 60 + minutes) * 60 + seconds) * 1000000

/-- `boost::posix_time::ptime_from_tm`. -/
def ptimeFromTm (tm : Tm) : Checked Int := do
  let date ← dateFromTm tm
  return date * ticksPerDay + timeDuration tm.hour tm.min tm.sec

/-! ## 3. The code -/

def parseDateTime (dateTime : Bytes) : Checked (Option Int) := do
  assert (dateTime ≠ [])
  match strptime (bytes "%Y-%m-%d %H:%M:%S") dateTime Tm.unset with
  | none => return none
  | some timetm => return some (← ptimeFromTm timetm)

def parseTime (time : Bytes) : Checked (Option Int) := do
  assert (time ≠ [])
  match strptime (bytes "%H:%M:%S") time Tm.unset with
  | none => return none
  | some timetm => return some (timeDuration timetm.hour timetm.min timetm.sec)

def parseDate (date : Bytes) : Checked (Option Int) := do
  assert (date ≠ [])
  match strptime (bytes "%Y-%m-%d") date Tm.unset with
  | none => return none
  | some timetm => return some (← dateFromTm timetm)

example : parseDateTime (bytes "2014-07-10 12:30:05") =
    some (some (2456849 * ticksPerDay + 45005000000)) := by
  decide +kernel

end SafeKiddo
