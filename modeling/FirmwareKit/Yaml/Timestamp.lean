import FirmwareKit.Moment
import FirmwareKit.Yaml.Cursor
set_option autoImplicit false

namespace FirmwareKit.Yaml.Timestamp

def field? (least most : Nat) (cs : List Char) : Option (Nat × List Char) :=
  let ds := (cs.take most).takeWhile Char.isDigit
  if ds.length < least then none
  else (Text.readDigits? 10 ds).map fun n => (n, cs.drop ds.length)

def mark? (mark : Char) : List Char → Option (List Char)
  | c :: rest => if c = mark then some rest else none
  | [] => none

def aheadMinutes? : List Char → Option Nat
  | [] => some 0
  | cs => do
    let (n, rest) ← field? 2 2 (← mark? ':' cs)
    if rest.isEmpty then some n else none

def zone? (cs : List Char) : Option (Option Int) :=
  if cs.isEmpty then some none
  else match cs.dropWhile isBlank with
    | ['Z'] => some (some 0)
    | '+' :: rest => do
      let (hours, rest) ← field? 1 2 rest
      let minutes ← aheadMinutes? rest
      some (some (hours * 60 + minutes))
    | '-' :: rest => do
      let (hours, rest) ← field? 1 2 rest
      let minutes ← aheadMinutes? rest
      some (some (-(hours * 60 + minutes)))
    | _ => none

/-- The microseconds behind a point, of which the first six digits count. -/
def fraction (cs : List Char) : Nat × List Char :=
  match cs with
  | '.' :: rest =>
    let ds := (rest.takeWhile Char.isDigit).take 6
    ((Text.readDigits? 10 (Text.padRight 6 '0' ds)).getD 0, rest.dropWhile Char.isDigit)
  | cs => (0, cs)

def timeOfDay? (cs : List Char) : Option TimeOfDay := do
  let (hour, cs) ← field? 1 2 cs
  let (minute, cs) ← field? 2 2 (← mark? ':' cs)
  let (second, cs) ← field? 2 2 (← mark? ':' cs)
  let (micro, cs) := fraction cs
  let ahead ← zone? cs
  some ⟨hour, minute, second, micro, ahead⟩

def afterDate? : List Char → Option (List Char)
  | 'T' :: rest | 't' :: rest => some rest
  | c :: rest => if isBlank c then some (rest.dropWhile isBlank) else none
  | [] => none

def ofText? (cs : List Char) : Option Moment := do
  let (year, cs) ← field? 4 4 cs
  let (month, cs) ← field? 1 2 (← mark? '-' cs)
  let (day, cs) ← field? 1 2 (← mark? '-' cs)
  if cs.isEmpty then some ⟨⟨year, month, day⟩, none⟩
  else
    let time ← timeOfDay? (← afterDate? cs)
    some ⟨⟨year, month, day⟩, some time⟩

/-- Without a tag, a date alone has to be written with all its digits. -/
def isPlain (cs : List Char) : Bool :=
  match ofText? cs with
  | some t => t.time.isSome || cs.length == 10
  | none => false

/-- A zone is less than a day away. -/
def zoneFault? (minutes : Int) : Option String :=
  if minutes.natAbs < Moment.minutesPerDay then none
  else some ("offset must be a timedelta strictly between -timedelta(hours=24) and "
    ++ s!"timedelta(hours=24), not {Moment.distanceText minutes}.")

def dateFault? (d : Calendar.Date) : Option String :=
  if d.year = 0 then some "year 0 is out of range"
  else if d.month = 0 ∨ 12 < d.month then some "month must be in 1..12"
  else if d.day = 0 ∨ Calendar.monthLength d.year.toNat d.month < d.day then
    some "day is out of range for month"
  else none

def timeFault? (t : TimeOfDay) : Option String :=
  if 23 < t.hour then some "hour must be in 0..23"
  else if 59 < t.minute then some "minute must be in 0..59"
  else if 59 < t.second then some "second must be in 0..59"
  else none

/-- Why there is no such moment; the zone is looked at first. -/
def fault? (m : Moment) : Option String :=
  (m.time.bind fun t => t.ahead.bind zoneFault?) <|> dateFault? m.date <|> m.time.bind timeFault?

end FirmwareKit.Yaml.Timestamp
