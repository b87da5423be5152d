/-!
# Timestamps

A `Timestamp` is a civil date and time in UTC, to the nanosecond; a leap second is second 60.

* `Timestamp.text` writes RFC 3339 with `Z` and the fewest of 0, 3, 6 or 9 fraction digits.
* `Timestamp.shift` moves a local time to UTC.
* `Timestamp.ofUnix` places a count of seconds since 1970 in the calendar.
-/

namespace Provision

namespace Timestamp

/-- Whether a year has a 29 February. -/
def isLeap (year : Int) : Bool := year % 4 = 0 && (year % 100 ≠ 0 || year % 400 = 0)

/-- The number of days of a month. -/
def daysIn (year : Int) (month : Nat) : Nat :=
  if month = 2 then (if isLeap year then 29 else 28)
  else if month ∈ [4, 6, 9, 11] then 30 else 31

/-- The fields name a moment of the calendar. -/
def Possible (year : Int) (month day hour minute second nanosecond : Nat) : Prop :=
  (-262143 ≤ year ∧ year ≤ 262142) ∧ (1 ≤ month ∧ month ≤ 12) ∧
  (1 ≤ day ∧ day ≤ daysIn year month) ∧ hour < 24 ∧ minute < 60 ∧ second ≤ 60 ∧ nanosecond < 1000000000

instance (year : Int) (month day hour minute second nanosecond : Nat) :
    Decidable (Possible year month day hour minute second nanosecond) := by
  unfold Possible; infer_instance

end Timestamp

/-- A date and a time of day in UTC. -/
structure Timestamp where
  year : Int
  month : Nat
  day : Nat
  hour : Nat
  minute : Nat
  second : Nat
  nanosecond : Nat
  possible : Timestamp.Possible year month day hour minute second nanosecond
deriving DecidableEq

namespace Timestamp

instance : Inhabited Timestamp := ⟨⟨1970, 1, 1, 0, 0, 0, 0, by decide⟩⟩

/-- The moment of the given fields, if the calendar has it. -/
def of? (year : Int) (month day hour minute second nanosecond : Nat) : Option Timestamp :=
  if h : Possible year month day hour minute second nanosecond then
    some ⟨year, month, day, hour, minute, second, nanosecond, h⟩
  else none

/-! ## Text -/

/-- A number in decimal, with zeros in front up to the given width. -/
def padded (width n : Nat) : String :=
  let ds := Nat.toDigits 10 n
  String.ofList (List.replicate (width - ds.length) '0' ++ ds)

/-- The year: four digits, or a sign and at least four. -/
def yearText (year : Int) : String :=
  if 0 ≤ year ∧ year ≤ 9999 then padded 4 year.toNat
  else (if year < 0 then "-" else "+") ++ padded 4 year.natAbs

/-- The point and the fewest of 0, 3, 6 or 9 digits that are exact. -/
def fractionText (nanosecond : Nat) : String :=
  if nanosecond = 0 then ""
  else if nanosecond % 1000000 = 0 then "." ++ padded 3 (nanosecond / 1000000)
  else if nanosecond % 1000 = 0 then "." ++ padded 6 (nanosecond / 1000)
  else "." ++ padded 9 nanosecond

/-- The text in RFC 3339. -/
def text (t : Timestamp) : String :=
  yearText t.year ++ "-" ++ padded 2 t.month ++ "-" ++ padded 2 t.day ++ "T" ++ padded 2 t.hour
    ++ ":" ++ padded 2 t.minute ++ ":" ++ padded 2 t.second ++ fractionText t.nanosecond ++ "Z"

/-- The date and the time of day to the second. -/
def clockText (t : Timestamp) : String :=
  yearText t.year ++ "-" ++ padded 2 t.month ++ "-" ++ padded 2 t.day ++ " " ++ padded 2 t.hour
    ++ ":" ++ padded 2 t.minute ++ ":" ++ padded 2 t.second

/-! ## Time zones -/

/-- The date after a date. -/
def dayAfter (year : Int) (month day : Nat) : Int × Nat × Nat :=
  if day < daysIn year month then (year, month, day + 1)
  else if month < 12 then (year, month + 1, 1)
  else (year + 1, 1, 1)

/-- The date before a date. -/
def dayBefore (year : Int) (month day : Nat) : Int × Nat × Nat :=
  if 1 < day then (year, month, day - 1)
  else if 1 < month then (year, month - 1, daysIn year (month - 1))
  else (year - 1, 12, 31)

/-- The moment that a clock `offset` minutes ahead of UTC shows as `t`, for an offset of less than
a day. -/
def shift (t : Timestamp) (offset : Int) : Option Timestamp :=
  if offset = 0 then some t
  else
    let minutes : Int := (60 * t.hour + t.minute : Nat) - offset
    let ((year, month, day), minutes) :=
      if minutes < 0 then (dayBefore t.year t.month t.day, minutes + 1440)
      else if 1440 ≤ minutes then (dayAfter t.year t.month t.day, minutes - 1440)
      else ((t.year, t.month, t.day), minutes)
    of? year month day (minutes.toNat / 60) (minutes.toNat % 60) t.second t.nanosecond

/-! ## Unix time -/

/-- The date that lies `n` days after 1 January 1970. It counts in eras of 400 years, each from
1 March, so that the day of a leap year comes last. -/
def dateOfDay (n : Nat) : Int × Nat × Nat :=
  let z := n + 719468
  let era := z / 146097
  let dayOfEra := z % 146097
  let yearOfEra := (dayOfEra - dayOfEra / 1460 + dayOfEra / 36524 - dayOfEra / 146096) / 365
  let dayOfYear := dayOfEra - (365 * yearOfEra + yearOfEra / 4 - yearOfEra / 100)
  let m := (5 * dayOfYear + 2) / 153
  let day := dayOfYear - (153 * m + 2) / 5 + 1
  let month := if m < 10 then m + 3 else m - 9
  let year := yearOfEra + 400 * era + (if month ≤ 2 then 1 else 0)
  (year, month, day)

/-- The moment so many seconds and nanoseconds after the start of 1970, if the calendar reaches
that far. -/
def ofUnix (seconds nanoseconds : Nat) : Option Timestamp :=
  let (year, month, day) := dateOfDay (seconds / 86400)
  let s := seconds % 86400
  of? year month day (s / 3600) (s / 60 % 60) (s % 60) nanoseconds

end Timestamp

end Provision
