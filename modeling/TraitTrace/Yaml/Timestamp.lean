import TraitTrace.Calendar.Basic
import TraitTrace.Yaml.Quoted

/-! Dates and times in a YAML text: a date, which a time may follow, and after it how far it is
ahead of universal time. -/

namespace TraitTrace.Yaml

/-- A time as it is written. Without a zone it is nowhere in particular; a zone is in minutes. -/
structure WrittenTime where
  hour : Nat
  minute : Nat
  second : Nat
  fraction : List Nat
  zone : Option Int

/-- A date as it is written, whether its month and day have two digits, and the time. -/
structure WrittenDate where
  year : Nat
  month : Nat
  day : Nat
  isWide : Bool
  time : Option WrittenTime

def withoutBreak (s : List Char) : List Char :=
  if s.getLast? = some '\n' then s.dropLast else s

def number? (least most : Nat) (s : List Char) : Option (Nat × Nat × List Char) :=
  let digits := (s.takeWhile Char.isDigit).take most
  if digits.length < least then none
  else some (Decimal.nat 10 (digits.filterMap Decimal.asciiDigit?), digits.length,
    s.drop digits.length)

def after? (c : Char) : List Char → Option (List Char)
  | d :: s => if d = c then some s else none
  | [] => none

/-- The rest after what stands between a date and a time: the letter, or blanks. -/
def timeMark? : List Char → Option (List Char)
  | c :: s =>
    if c = 'T' ∨ c = 't' then some s
    else if isSpaceOrTab c then some (s.dropWhile isSpaceOrTab)
    else none
  | [] => none

def zone? (s : List Char) : Option (Option Int) :=
  if s.isEmpty then some none
  else
    match s.dropWhile isSpaceOrTab with
    | ['Z'] => some (some 0)
    | sign :: s =>
      if sign = '+' ∨ sign = '-' then do
        let (hours, _, s) ← number? 1 2 s
        let minutes ←
          if s.isEmpty then some 0
          else (after? ':' s).bind fun s => (number? 2 2 s).bind fun (minutes, _, s) =>
            if s.isEmpty then some minutes else none
        let size : Int := (60 * hours + minutes : Nat)
        return some (if sign = '-' then -size else size)
      else none
    | [] => none

def writtenTime? (s : List Char) : Option WrittenTime := do
  let (hour, _, s) ← number? 1 2 s
  let (minute, _, s) ← number? 2 2 (← after? ':' s)
  let (second, _, s) ← number? 2 2 (← after? ':' s)
  let (fraction, s) :=
    match s with
    | '.' :: s => (s.takeWhile Char.isDigit, s.dropWhile Char.isDigit)
    | s => ([], s)
  return ⟨hour, minute, second, fraction.filterMap Decimal.asciiDigit?, ← zone? s⟩

def writtenDate? (s : List Char) : Option WrittenDate := do
  let (year, _, s) ← number? 4 4 s
  let (month, m, s) ← number? 1 2 (← after? '-' s)
  let (day, d, s) ← number? 1 2 (← after? '-' s)
  let time ←
    if s.isEmpty then some none
    else (timeMark? s).bind fun s => (writtenTime? s).map some
  return ⟨year, month, day, m == 2 && d == 2, time⟩

/-- Whether a text has the form of a date by itself. Without a time it has two digits for the month
and two for the day. -/
def isTimestamp (s : List Char) : Bool :=
  (writtenDate? s).any fun d => d.isWide || d.time.isSome

def microseconds (fraction : List Nat) : Nat :=
  Decimal.nat 10 ((fraction ++ List.replicate 6 0).take 6)

open Calendar in
def WrittenDate.moment (d : WrittenDate) : Except Calendar.Flaw Moment :=
  match d.time with
  | none => (Date.of d.year d.month d.day).map .day
  | some t => do
    let offset ←
      match t.zone with
      | none => pure none
      | some minutes => (Offset.of minutes).map some
    let date ← Date.of d.year d.month d.day
    let clock ← Clock.of t.hour t.minute t.second (microseconds t.fraction)
    return .time date clock offset

end TraitTrace.Yaml
