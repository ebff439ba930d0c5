import Ticketing.Lib.Text

/-!
# Instants as Python's `datetime` writes and reads them

* An instant is the number of microseconds since 0001-01-01T00:00 UTC, a `Date` one of the
  proleptic Gregorian calendar. `ofDays` and `Date.toDays` turn a date into the day it is and
  back.
* A `Stamp` is a `datetime`: the microseconds of the clock it shows, and its offset to UTC
  (`utcoffset`), `none` where it is naive. `Stamp.instant` is the instant of an aware one.
* `isoformat` is the text of an aware `datetime` in UTC, `Stamp.isoformat` that of any: the
  fraction is left out when it is zero, and of an offset the seconds.
* `fromisoformat` reads the formats of ISO 8601 that `datetime.fromisoformat` does: calendar and
  week dates, with and without separators, and times with an optional offset. `none` is its
  `ValueError`, which anything else raises. The readers are those of `_pydatetime`, under its
  names (`parseDate` is `_parse_isoformat_date`, and so on).

That the two agree is `Lib/Isoformat.lean`. Out of scope: `fold`, and time zones other than a
fixed offset.
-/

namespace Ticketing.Lib.Datetime

open Text (numeral digitValue value)

/-- A date of the proleptic Gregorian calendar. -/
structure Date where
  year : Nat
  month : Nat
  day : Nat
  deriving DecidableEq, Repr

def isLeap (year : Nat) : Bool := year % 4 = 0 && (year % 100 ≠ 0 || year % 400 = 0)

/-- `_days_before_month`, for months up to 13. -/
def daysBeforeMonth (leap : Bool) (month : Nat) : Nat :=
  [0, 0, 31, 59, 90, 120, 151, 181, 212, 243, 273, 304, 334, 365].getD month 0 +
    if leap && 2 < month then 1 else 0

/-- The month and day of day `n` of a year, counted from 0: an estimate of the month that is at most
one too large. -/
def monthDay (leap : Bool) (n : Nat) : Nat × Nat :=
  let month := (n + 50) / 32
  let month := if n < daysBeforeMonth leap month then month - 1 else month
  (month, n - daysBeforeMonth leap month + 1)

/-- `_ord2ymd`, of days counted from 0. -/
def ofDays (n : Nat) : Date :=
  let n400 := n / 146097
  let n := n % 146097
  let n100 := n / 36524
  let n := n % 36524
  let n4 := n / 1461
  let n := n % 1461
  let n1 := n / 365
  let n := n % 365
  let year := n400 * 400 + n100 * 100 + n4 * 4 + n1 + 1
  if n1 = 4 ∨ n100 = 4 then ⟨year - 1, 12, 31⟩
  else
    let md := monthDay (n1 = 3 && (n4 ≠ 24 || n100 = 3)) n
    ⟨year, md.1, md.2⟩

/-- `"%04d-%02d-%02d"`. -/
def Date.chars (d : Date) : List Char :=
  numeral 10 4 d.year ++ '-' :: numeral 10 2 d.month ++ '-' :: numeral 10 2 d.day

/-- `"%02d:%02d:%02d"`, and the microseconds where there are any. -/
def timeChars (micros : Nat) : List Char :=
  let us := micros % 1000000
  let s := micros / 1000000
  numeral 10 2 (s / 3600) ++ ':' :: numeral 10 2 (s / 60 % 60) ++ ':' :: numeral 10 2 (s % 60) ++
    if us = 0 then [] else '.' :: numeral 10 6 us

/-- `datetime.isoformat()`. -/
def isoformat (t : Nat) : String :=
  String.ofList ((ofDays (t / 86400000000)).chars ++ 'T' :: timeChars (t % 86400000000) ++
    "+00:00".toList)

/-! ## Reading -/

/-- A `datetime`: the time on its clock, and its offset in microseconds when it is aware. -/
structure Stamp where
  micros : Nat
  utcoffset : Option Int
  deriving DecidableEq, Repr

def daysInMonth (leap : Bool) (month : Nat) : Nat :=
  daysBeforeMonth leap (month + 1) - daysBeforeMonth leap month

/-- `_ymd2ord`, counted from 0. -/
def Date.toDays (d : Date) : Nat :=
  let y := d.year - 1
  y * 365 + y / 4 - y / 100 + y / 400 + daysBeforeMonth (isLeap d.year) d.month + (d.day - 1)

/-- `_check_date_fields`. -/
def Date.Valid (d : Date) : Prop :=
  1 ≤ d.year ∧ d.year ≤ 9999 ∧ 1 ≤ d.month ∧ d.month ≤ 12 ∧
    1 ≤ d.day ∧ d.day ≤ daysInMonth (isLeap d.year) d.month

instance (d : Date) : Decidable d.Valid := inferInstanceAs (Decidable (_ ∧ _))

/-- `count` digits, after `acc`. -/
def parseDigits : Nat → Nat → List Char → Option (Nat × List Char)
  | 0, acc, cs => some (acc, cs)
  | count + 1, acc, c :: cs => (digitValue 10 c).bind fun d => parseDigits count (acc * 10 + d) cs
  | _ + 1, _, [] => none

def isDigit (c : Char) : Bool := (digitValue 10 c).isSome

/-- The separator `c`, where there is one between the other fields. -/
def parseSeparator (separated : Bool) (c : Char) (cs : List Char) : Option (List Char) :=
  if separated then if cs.head? = some c then some cs.tail else none else some cs

/-- `_find_isoformat_datetime_separator`. -/
def findSeparator (cs : List Char) : Option Nat :=
  let char (i : Nat) := cs.getD i ' '
  if cs.length = 7 then some 7
  else if char 4 = '-' then
    if char 5 = 'W' then
      if char 8 = '-' then
        if cs.length = 9 then none
        -- `YYYY-Www-##`: the hyphen is taken to end the date
        else if isDigit (char 10) then some 8 else some 10
      else some 8
    else some 10
  else if char 4 = 'W' then
    let digits := 7 + ((cs.drop 7).takeWhile isDigit).length
    if digits < 9 then some digits else if digits % 2 = 0 then some 7 else some 8
  else some 8

/-- `_isoweek_to_gregorian`. -/
def ofIsoWeek (year week day : Nat) : Option Date :=
  let first := (Date.mk year 1 1).toDays
  let weekday := first % 7
  let long := weekday = 3 ∨ weekday = 2 ∧ isLeap year
  if (1 ≤ year ∧ year ≤ 9999) ∧ (1 ≤ week ∧ (week < 53 ∨ week = 53 ∧ long)) ∧ 1 ≤ day ∧ day ≤ 7 then
    let monday := first - weekday + if 3 < weekday then 7 else 0
    some (ofDays (monday + (week - 1) * 7 + (day - 1)))
  else none

/-- `_parse_isoformat_date`. -/
def parseDate (cs : List Char) : Option Date :=
  (parseDigits 4 0 cs).bind fun (year, cs) =>
    let separated := cs.head? = some '-'
    (parseSeparator separated '-' cs).bind fun cs =>
      if cs.head? = some 'W' then
        (parseDigits 2 0 cs.tail).bind fun (week, cs) =>
          if cs = [] then ofIsoWeek year week 1
          else
            (parseSeparator separated '-' cs).bind fun cs =>
              (parseDigits 1 0 cs).bind fun (day, _) => ofIsoWeek year week day
      else
        (parseDigits 2 0 cs).bind fun (month, cs) =>
          (parseSeparator separated '-' cs).bind fun cs =>
            (parseDigits 2 0 cs).map fun (day, _) => ⟨year, month, day⟩

/-- The hours, minutes, seconds and microseconds of a time or of an offset. -/
structure Clock where
  hour : Nat
  minute : Nat
  second : Nat
  microsecond : Nat

def Clock.micros (c : Clock) : Nat :=
  ((c.hour * 60 + c.minute) * 60 + c.second) * 1000000 + c.microsecond

/-- The digits after a decimal mark; those after the sixth are dropped. -/
def parseFraction (cs : List Char) : Option Nat :=
  match cs with
  | [] => some 0
  | c :: digits =>
    if (c = '.' ∨ c = ',') ∧ digits ≠ [] ∧ digits.all isDigit then
      (value 10 (digits.take 6)).map fun n => n * 10 ^ (6 - digits.length)
    else none

/-- `_parse_hh_mm_ss_ff`. -/
def parseClock (cs : List Char) : Option Clock :=
  (parseDigits 2 0 cs).bind fun (hour, cs) =>
    let separated := cs.head? = some ':'
    if cs = [] then some ⟨hour, 0, 0, 0⟩
    else
      (parseSeparator separated ':' cs).bind fun cs =>
        (parseDigits 2 0 cs).bind fun (minute, cs) =>
          if cs = [] then some ⟨hour, minute, 0, 0⟩
          else
            (parseSeparator separated ':' cs).bind fun cs =>
              (parseDigits 2 0 cs).bind fun (second, cs) =>
                (parseFraction cs).map fun us => ⟨hour, minute, second, us⟩

/-- The offset after a time: none, `Z`, or a sign and a clock of less than a day. -/
def parseOffset : List Char → Option (Option Int)
  | [] => some none
  | c :: cs =>
    if c = 'Z' then if cs = [] then some (some 0) else none
    else
      (parseClock cs).bind fun offset =>
        if offset.micros < 86400000000 then
          some (some (if c = '-' then -(offset.micros : Int) else offset.micros))
        else none

/-- `_parse_isoformat_time`. -/
def parseTime (cs : List Char) : Option (Nat × Option Int) :=
  let clock := cs.takeWhile fun c => c ≠ '+' && c ≠ '-' && c ≠ 'Z'
  (parseClock clock).bind fun time =>
    (parseOffset (cs.drop clock.length)).bind fun offset =>
      if time.hour ≤ 23 ∧ time.minute ≤ 59 ∧ time.second ≤ 59 then some (time.micros, offset)
      else none

/-- `datetime.fromisoformat(text)`. -/
def fromisoformat (text : String) : Option Stamp :=
  let cs := text.toList
  if cs.length < 7 then none
  else
    (findSeparator cs).bind fun n =>
      (parseDate (cs.take n)).bind fun date =>
        (if cs.length = n then some (0, none) else parseTime (cs.drop (n + 1))).bind
          fun (time, offset) =>
            if date.Valid then some ⟨date.toDays * 86400000000 + time, offset⟩ else none

/-- `_format_offset`. -/
def offsetChars (offset : Int) : List Char :=
  let us := offset.natAbs
  (if offset < 0 then '-' else '+') :: numeral 10 2 (us / 3600000000) ++
    ':' :: numeral 10 2 (us / 60000000 % 60) ++
    (if us % 60000000 = 0 then [] else ':' :: numeral 10 2 (us / 1000000 % 60)) ++
    if us % 1000000 = 0 then [] else '.' :: numeral 10 6 (us % 1000000)

/-- `d.isoformat()`. -/
def Stamp.isoformat (d : Stamp) : String :=
  String.ofList ((ofDays (d.micros / 86400000000)).chars ++ 'T' ::
    timeChars (d.micros % 86400000000) ++
    (d.utcoffset.map offsetChars).getD [])

/-- The instant of an aware `datetime`. -/
def Stamp.instant (d : Stamp) : Option Int := d.utcoffset.map fun offset => d.micros - offset

example : isoformat 63838404000123456 = "2023-12-17T10:00:00.123456+00:00" := by decide +kernel

example : fromisoformat "2023-W50-7 11:30:00,5+01:30" =
    some ⟨63838409400500000, some 5400000000⟩ := by decide +kernel

end Ticketing.Lib.Datetime
