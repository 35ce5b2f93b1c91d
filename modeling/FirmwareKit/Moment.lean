import FirmwareKit.Calendar
set_option autoImplicit false

/-!
# Moments

A day, or a moment of one. A moment may belong to a zone that is some minutes ahead of universal time;
moments without a zone are compared as they are written, and never equal those of a zone.
-/
namespace FirmwareKit

structure TimeOfDay where
  hour : Nat
  minute : Nat
  second : Nat
  micro : Nat
  /-- Minutes ahead of universal time, where there is a zone. -/
  ahead : Option Int
deriving DecidableEq, Repr

structure Moment where
  date : Calendar.Date
  time : Option TimeOfDay
deriving DecidableEq, Repr

namespace Moment

def minutesPerDay : Nat := 1440

def microsPerSecond : Nat := 1000000

/-- The microseconds from the start of the year 1 on, those of universal time where there is a zone. -/
def micros (d : Calendar.Date) (t : TimeOfDay) : Int :=
  let minutes := (Calendar.dayNumber d * minutesPerDay + t.hour * 60 + t.minute : Nat) - t.ahead.getD 0
  (minutes * 60 + t.second) * microsPerSecond + t.micro

def same (m n : Moment) : Bool :=
  match m.time, n.time with
  | none, none => m.date == n.date
  | some t, some u => t.ahead.isSome == u.ahead.isSome && micros m.date t == micros n.date u
  | _, _ => false

def typeName (m : Moment) : String := if m.time.isSome then "datetime" else "date"

def dateText (d : Calendar.Date) : String :=
  "-".intercalate [Calendar.padded 4 '0' d.year.toNat, Calendar.padded 2 '0' d.month,
    Calendar.padded 2 '0' d.day]

def zoneText (minutes : Int) : String :=
  (if minutes < 0 then "-" else "+") ++ ":".intercalate
    [Calendar.padded 2 '0' (minutes.natAbs / 60), Calendar.padded 2 '0' (minutes.natAbs % 60)]

def timeText (t : TimeOfDay) : String :=
  Calendar.clock ((t.hour * 60 + t.minute) * 60 + t.second)
    ++ (if t.micro = 0 then "" else "." ++ Calendar.padded 6 '0' t.micro)
    ++ (t.ahead.elim "" zoneText)

def text (m : Moment) : String :=
  dateText m.date ++ m.time.elim "" fun t => " " ++ timeText t

def distanceParts (minutes : Int) : List String :=
  let part (name : String) (n : Int) := if n = 0 then [] else [name ++ String.ofList (Text.integer n)]
  part "days=" (minutes.fdiv minutesPerDay) ++ part "seconds=" (minutes.fmod minutesPerDay * 60)

def distanceText (minutes : Int) : String :=
  let parts := distanceParts minutes
  "datetime.timedelta(" ++ (if parts.isEmpty then "0" else ", ".intercalate parts) ++ ")"

def quotedZone (minutes : Int) : String :=
  if minutes = 0 then "datetime.timezone.utc" else "datetime.timezone(" ++ distanceText minutes ++ ")"

def numbers (ns : List Nat) : String :=
  ", ".intercalate (ns.map fun n => String.ofList (Text.decimal n))

/-- Seconds and microseconds are left out from the end where they are zero. -/
def quoted (m : Moment) : String :=
  let date := [m.date.year.toNat, m.date.month, m.date.day]
  match m.time with
  | none => "datetime.date(" ++ numbers date ++ ")"
  | some t =>
    let tail := if t.micro = 0 then if t.second = 0 then [] else [t.second] else [t.second, t.micro]
    "datetime.datetime(" ++ numbers (date ++ [t.hour, t.minute] ++ tail)
      ++ (t.ahead.elim "" fun a => ", tzinfo=" ++ quotedZone a) ++ ")"

end Moment
end FirmwareKit
