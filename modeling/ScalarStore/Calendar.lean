import ScalarStore.Numeric.Number

/-! # Days and moments

Days of the Gregorian calendar, extended to the years 1 to 9999, and moments of such days to a
millionth of a second, perhaps with a distance from universal time. -/

namespace ScalarStore

/-! ## Days -/

def isLeapYear (year : Nat) : Bool := year % 4 == 0 && (year % 100 != 0 || year % 400 == 0)

def daysOfMonth (year month : Nat) : Nat :=
  if month = 2 then if isLeapYear year then 29 else 28
  else if month = 4 ∨ month = 6 ∨ month = 9 ∨ month = 11 then 30
  else 31

structure Day where
  year : Nat
  month : Nat
  day : Nat
  yearInRange : 1 ≤ year ∧ year ≤ 9999
  monthInRange : 1 ≤ month ∧ month ≤ 12
  dayInRange : 1 ≤ day ∧ day ≤ daysOfMonth year month
deriving DecidableEq

/-- Why numbers are no day, no time of a day or no distance from universal time. -/
inductive CalendarFault
  | year (year : Nat)
  | month
  | day
  | hour
  | minute
  | second
  | zone (minutes : Int)
deriving DecidableEq

/-- A number with leading zeros up to a width. -/
def padded (width n : Nat) : String :=
  String.ofList (List.replicate (width - n.repr.length) '0') ++ n.repr

namespace Day

def make (year month day : Nat) : Except CalendarFault Day :=
  if hy : 1 ≤ year ∧ year ≤ 9999 then
    if hm : 1 ≤ month ∧ month ≤ 12 then
      if hd : 1 ≤ day ∧ day ≤ daysOfMonth year month then .ok ⟨year, month, day, hy, hm, hd⟩
      else .error .day
    else .error .month
  else .error (.year year)

/-- The number of days before a day, counted from the start of the calendar. -/
def ordinal (d : Day) : Nat :=
  let past := d.year - 1
  let months := (List.range (d.month - 1)).foldl (fun n m => n + daysOfMonth d.year (m + 1)) 0
  365 * past + past / 4 - past / 100 + past / 400 + months + (d.day - 1)

/-- A day as year, month and day between dashes. -/
def text (d : Day) : String :=
  padded 4 d.year ++ "-" ++ padded 2 d.month ++ "-" ++ padded 2 d.day

end Day

/-! ## Moments -/

/-- The zone is the distance from universal time in minutes, if it is known. -/
structure Moment where
  day : Day
  hour : Nat
  minute : Nat
  second : Nat
  micro : Nat
  zone : Option Int
  hourInRange : hour < 24
  minuteInRange : minute < 60
  secondInRange : second < 60
  microInRange : micro < 1000000
deriving DecidableEq

namespace Moment

/-- A distance from universal time must be less than a day. -/
def checkZone : Option Int → Except CalendarFault Unit
  | none => .ok ()
  | some minutes => if minutes.natAbs < 1440 then .ok () else .error (.zone minutes)

/-- The zone is checked before the day, and the day before the time. -/
def make (year month day hour minute second micro : Nat) (zone : Option Int) :
    Except CalendarFault Moment := do
  checkZone zone
  let d ← Day.make year month day
  if hh : hour < 24 then
    if hm : minute < 60 then
      if hs : second < 60 then
        return ⟨d, hour, minute, second, micro % 1000000, zone, hh, hm, hs,
          Nat.mod_lt _ (by decide)⟩
      else throw .second
    else throw .minute
  else throw .hour

/-- The millionths of a second since the start of the calendar, by the clock that shows the
moment. -/
def shownMicros (m : Moment) : Int :=
  ((((m.day.ordinal * 24 + m.hour) * 60 + m.minute) * 60 + m.second) * 1000000 + m.micro : Nat)

/-- The same by universal time, as which an unknown zone counts. -/
def micros (m : Moment) : Int := m.shownMicros - m.zone.getD 0 * 60000000

/-- Moments are the same when universal time is. Those of known and unknown zone never are. -/
def same (a b : Moment) : Bool := a.zone.isSome == b.zone.isSome && a.micros == b.micros

def zoneText : Option Int → String
  | none => ""
  | some minutes =>
      (if minutes < 0 then "-" else "+") ++ padded 2 (minutes.natAbs / 60) ++ ":" ++
        padded 2 (minutes.natAbs % 60)

/-- The day, a space and the time; the millionths only if there are any. -/
def text (m : Moment) : String :=
  m.day.text ++ " " ++ padded 2 m.hour ++ ":" ++ padded 2 m.minute ++ ":" ++ padded 2 m.second ++
    (if m.micro = 0 then "" else "." ++ padded 6 m.micro) ++ zoneText m.zone

end Moment

end ScalarStore
