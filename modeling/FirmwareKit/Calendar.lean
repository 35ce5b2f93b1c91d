import FirmwareKit.Text.Digits
set_option autoImplicit false

namespace FirmwareKit.Calendar

structure Date where
  year : Int
  month : Nat
  day : Nat
deriving DecidableEq, Repr

def secondsPerDay : Nat := 86400
def daysPerEra : Nat := 146097

/-- Days from the first of March of the year 0 to the first of January 1970. -/
def epochShift : Int := 719468

def yearOfEra (day : Nat) : Nat :=
  (day - day / 1460 + day / 36524 - day / 146096) / 365

def dayOfYear (day : Nat) : Nat :=
  let y := yearOfEra day
  day - (365 * y + y / 4 - y / 100)

def dateOfDay (n : Int) : Date :=
  let shifted := n + epochShift
  let era := shifted.fdiv daysPerEra
  let day := (shifted.fmod daysPerEra).toNat
  let inYear := dayOfYear day
  let monthFromMarch := (5 * inYear + 2) / 153
  let month := if monthFromMarch < 10 then monthFromMarch + 3 else monthFromMarch - 9
  { year := yearOfEra day + era * 400 + (if month ≤ 2 then 1 else 0)
    month
    day := inYear - (153 * monthFromMarch + 2) / 5 + 1 }

/-- The first day of 1970 was a Thursday. -/
def weekday (n : Int) : Nat := ((n + 4).fmod 7).toNat

def weekdayNames : List String := ["Sun", "Mon", "Tue", "Wed", "Thu", "Fri", "Sat"]

def monthNames : List String :=
  ["Jan", "Feb", "Mar", "Apr", "May", "Jun", "Jul", "Aug", "Sep", "Oct", "Nov", "Dec"]

def padded (width : Nat) (fill : Char) (n : Nat) : String :=
  String.ofList (Text.padLeft width fill (Text.decimal n))

def isLeapYear (year : Nat) : Bool := year % 4 == 0 && (year % 100 != 0 || year % 400 == 0)

def monthLength (year month : Nat) : Nat :=
  if month = 2 then if isLeapYear year then 29 else 28
  else if [4, 6, 9, 11].contains month then 30
  else 31

def daysBeforeYear (year : Nat) : Nat :=
  let y := year - 1
  365 * y + y / 4 - y / 100 + y / 400

def dayNumber (d : Date) : Nat :=
  let year := d.year.toNat
  (List.range' 1 (d.month - 1)).foldl (fun days month => days + monthLength year month)
    (daysBeforeYear year) + d.day

def clock (second : Nat) : String :=
  ":".intercalate
    [padded 2 '0' (second / 3600), padded 2 '0' (second / 60 % 60), padded 2 '0' (second % 60)]

def text (seconds : Int) : String :=
  let day := seconds.fdiv secondsPerDay
  let d := dateOfDay day
  let name := weekdayNames.getD (weekday day) ""
  let month := monthNames.getD (d.month - 1) ""
  let dayText := padded 2 ' ' d.day
  let time := clock (seconds.fmod secondsPerDay).toNat
  s!"{name} {month} {dayText} {time} {d.year}"

end FirmwareKit.Calendar
