/-!
# Calendar values

Documents can hold calendar dates and points in time; they are carried along as data.
-/

namespace DatalogFragments

/-- A day of the calendar. -/
structure Date where
  year : Nat
  month : Nat
  day : Nat
  deriving DecidableEq, Repr

/-- A point in time; `zone` is the offset from universal time in minutes, if one is known. -/
structure Moment where
  date : Date
  hour : Nat
  minute : Nat
  second : Nat
  microsecond : Nat
  zone : Option Int
  deriving DecidableEq, Repr

namespace Date

/-- Whether February has 29 days. -/
def isLeapYear (year : Nat) : Bool :=
  year % 4 == 0 && (year % 100 != 0 || year % 400 == 0)

/-- The number of days of a month. -/
def daysIn (year month : Nat) : Nat :=
  if month = 2 then (if isLeapYear year then 29 else 28)
  else if month = 4 ∨ month = 6 ∨ month = 9 ∨ month = 11 then 30
  else 31

/-- Whether the day exists: years run from 1 to 9999. -/
def exists? (d : Date) : Bool :=
  1 ≤ d.year && d.year ≤ 9999 && 1 ≤ d.month && d.month ≤ 12 && 1 ≤ d.day &&
    d.day ≤ daysIn d.year d.month

/-- Days since the day before 1 January of year 1. -/
def ordinal (d : Date) : Nat :=
  let y := d.year - 1
  let before := (List.range (d.month - 1)).foldl (fun n m => n + daysIn d.year (m + 1)) 0
  365 * y + y / 4 - y / 100 + y / 400 + before + d.day

end Date

namespace Moment

/-- Whether day and time of day exist and the zone is less than a day off. -/
def exists? (m : Moment) : Bool :=
  m.date.exists? && m.hour < 24 && m.minute < 60 && m.second < 60 && m.microsecond < 1000000 &&
    m.zone.all fun z => z.natAbs < 1440

/-- Microseconds of universal time, for a moment whose zone is known. -/
def instant (m : Moment) (zone : Int) : Int :=
  let minutes : Int := m.date.ordinal * 1440 + m.hour * 60 + m.minute - zone
  (minutes * 60 + m.second) * 1000000 + m.microsecond

/-- Two moments are the same if both or neither have a zone and they denote one instant. -/
def same (a b : Moment) : Bool :=
  match a.zone, b.zone with
  | some z, some z' => a.instant z == b.instant z'
  | none, none => a == b
  | _, _ => false

end Moment

end DatalogFragments
