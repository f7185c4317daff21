/-! Dates of the Gregorian calendar, times of day, and moments: a date, or a date with a time, which
may say how far it is ahead of universal time. Only dates and times that there are have a value. -/

namespace TraitTrace.Calendar

/-- What can be wrong with a date, a time, or an offset of a number of minutes. -/
inductive Flaw where
  | year (year : Nat)
  | month
  | day
  | hour
  | minute
  | second
  | offset (minutes : Int)
  deriving DecidableEq, Repr

def isLeap (year : Nat) : Bool := year % 4 == 0 && (year % 100 != 0 || year % 400 == 0)

def monthLength (year month : Nat) : Nat :=
  if month = 2 then if isLeap year then 29 else 28
  else if month = 4 ∨ month = 6 ∨ month = 9 ∨ month = 11 then 30
  else 31

structure Date where
  year : Nat
  month : Nat
  day : Nat
  year_range : 1 ≤ year ∧ year ≤ 9999
  month_range : 1 ≤ month ∧ month ≤ 12
  day_range : 1 ≤ day ∧ day ≤ monthLength year month
  deriving DecidableEq

def Date.of (year month day : Nat) : Except Flaw Date :=
  if hy : 1 ≤ year ∧ year ≤ 9999 then
    if hm : 1 ≤ month ∧ month ≤ 12 then
      if hd : 1 ≤ day ∧ day ≤ monthLength year month then .ok ⟨year, month, day, hy, hm, hd⟩
      else .error .day
    else .error .month
  else .error (.year year)

theorem Date.of_self (d : Date) : Date.of d.year d.month d.day = .ok d := by
  simp [Date.of, d.year_range, d.month_range, d.day_range]

structure Clock where
  hour : Nat
  minute : Nat
  second : Nat
  microsecond : Nat
  hour_lt : hour < 24
  minute_lt : minute < 60
  second_lt : second < 60
  microsecond_lt : microsecond < 1000000
  deriving DecidableEq

def Clock.of (hour minute second fraction : Nat) : Except Flaw Clock :=
  if hh : hour < 24 then
    if hm : minute < 60 then
      if hs : second < 60 then
        .ok ⟨hour, minute, second, fraction % 1000000, hh, hm, hs, Nat.mod_lt _ (by decide)⟩
      else .error .second
    else .error .minute
  else .error .hour

theorem Clock.of_self (c : Clock) : Clock.of c.hour c.minute c.second c.microsecond = .ok c := by
  simp [Clock.of, c.hour_lt, c.minute_lt, c.second_lt, Nat.mod_eq_of_lt c.microsecond_lt]

/-- How far a time is ahead of universal time: less than a day, in minutes. -/
abbrev Offset := { minutes : Int // minutes.natAbs < 1440 }

def Offset.of (minutes : Int) : Except Flaw Offset :=
  if h : minutes.natAbs < 1440 then .ok ⟨minutes, h⟩ else .error (.offset minutes)

theorem Offset.of_self (o : Offset) : Offset.of o.val = .ok o := by
  simp [Offset.of, o.property]

inductive Moment where
  | day (date : Date)
  | time (date : Date) (clock : Clock) (offset : Option Offset)
  deriving DecidableEq

def Date.dayNumber (d : Date) : Nat :=
  let years := d.year - 1
  let before := ((List.range (d.month - 1)).map fun m => monthLength d.year (m + 1)).foldl (· + ·) 0
  365 * years + years / 4 - years / 100 + years / 400 + before + (d.day - 1)

def Moment.instant? : Moment → Option Int
  | time d c (some o) =>
    let minutes : Int := (d.dayNumber * 24 + c.hour) * 60 + c.minute - o.val
    some ((minutes * 60 + c.second) * 1000000 + c.microsecond)
  | _ => none

end TraitTrace.Calendar
