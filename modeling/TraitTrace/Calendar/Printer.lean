import TraitTrace.Calendar.Basic

/-! Moments and the flaws of dates as text. -/

namespace TraitTrace.Calendar

def padded (width n : Nat) : String :=
  let ds := Nat.toDigits 10 n
  String.ofList (List.replicate (width - ds.length) '0' ++ ds)

def Date.text (d : Date) : String :=
  s!"{padded 4 d.year}-{padded 2 d.month}-{padded 2 d.day}"

def Clock.text (c : Clock) : String :=
  let seconds := s!"{padded 2 c.hour}:{padded 2 c.minute}:{padded 2 c.second}"
  if c.microsecond = 0 then seconds else s!"{seconds}.{padded 6 c.microsecond}"

def Offset.text (o : Offset) : String :=
  let size := o.val.natAbs
  (if o.val < 0 then "-" else "+") ++ s!"{padded 2 (size / 60)}:{padded 2 (size % 60)}"

def Moment.text : Moment → String
  | day d => d.text
  | time d c o => s!"{d.text} {c.text}" ++ (o.map Offset.text).getD ""

/-- A stretch of minutes as it is shown: whole days, which may be negative, and seconds. -/
def inspectMinutes (minutes : Int) : String :=
  let days := minutes / 1440
  let seconds := minutes % 1440 * 60
  let parts := (if days = 0 then [] else [s!"days={days}"]) ++
    (if seconds = 0 then [] else [s!"seconds={seconds}"])
  "datetime.timedelta(" ++ (if parts.isEmpty then "0" else ", ".intercalate parts) ++ ")"

def Offset.inspect (o : Offset) : String :=
  if o.val = 0 then "datetime.timezone.utc"
  else "datetime.timezone(" ++ inspectMinutes o.val ++ ")"

def Date.numbers (d : Date) : List String := [d.year, d.month, d.day].map toString

/-- The numbers of a time. A fraction that is zero is left out, and with it seconds that are. -/
def Clock.numbers (c : Clock) : List String :=
  let seconds :=
    if c.microsecond = 0 then if c.second = 0 then [] else [c.second]
    else [c.second, c.microsecond]
  ([c.hour, c.minute] ++ seconds).map toString

def Moment.inspect : Moment → String
  | day d => "datetime.date(" ++ ", ".intercalate d.numbers ++ ")"
  | time d c o =>
    let zone := (o.map fun o => "tzinfo=" ++ o.inspect).toList
    "datetime.datetime(" ++ ", ".intercalate (d.numbers ++ c.numbers ++ zone) ++ ")"

def Flaw.message : Flaw → String
  | year y => s!"year {y} is out of range"
  | month => "month must be in 1..12"
  | day => "day is out of range for month"
  | hour => "hour must be in 0..23"
  | minute => "minute must be in 0..59"
  | second => "second must be in 0..59"
  | offset minutes => "offset must be a timedelta strictly between -timedelta(hours=24) and " ++
    "timedelta(hours=24), not " ++ inspectMinutes minutes ++ "."

example : [1440, -1440, 6039, -300].map inspectMinutes =
    ["datetime.timedelta(days=1)", "datetime.timedelta(days=-1)",
      "datetime.timedelta(days=4, seconds=16740)",
      "datetime.timedelta(days=-1, seconds=68400)"] := by decide +kernel

end TraitTrace.Calendar
