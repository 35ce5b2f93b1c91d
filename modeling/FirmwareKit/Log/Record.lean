import FirmwareKit.Files.Path
import FirmwareKit.Log.Note
import FirmwareKit.Log.Template
import FirmwareKit.Text.DecimalDigit
set_option autoImplicit false

namespace FirmwareKit

structure Record where
  level : Int
  source : String
  message : Value
  arguments : List Value
  /-- When and where the record was made. -/
  origin : Option String
  /-- The text of an exception, and that of a stack; empty ones are not shown. -/
  exception : String := ""
  stack : String := ""

namespace Record

def originText (elapsed : Int) (path : String) (line : Int) : String :=
  s!"{elapsed}ms since start, {Path.fileName path}:{line}"

def ofNote (n : Note) (origin : Option String) : Record :=
  { level := n.level.number, source := n.source, message := .text n.text, arguments := [], origin }

def escape : Char := '\x1b'

def code (n : Nat) : String := String.ofList (escape :: '[' :: Text.decimal n ++ ['m'])

def defaultColor : String := code 39
def plainStyle : String := code 0
def brightStyle : String := code 1

def colorsBefore : Level → String
  | .debug => code 34
  | .info => code 37 ++ brightStyle
  | .warning => code 33
  | .error => code 31
  | .critical => code 31 ++ brightStyle

def colorsAfter : Level → String
  | .debug | .warning | .error => defaultColor
  | .info | .critical => defaultColor ++ plainStyle

/-- What follows a colour sequence, if the text begins with one: a bracket, one to three digits of
any script and the letter m come after the escape. -/
def afterColor? : List Char → Option (List Char)
  | c :: '[' :: rest =>
    let digits := rest.takeWhile fun d => (Text.decimalDigit? d).isSome
    match rest.dropWhile fun d => (Text.decimalDigit? d).isSome with
    | 'm' :: rest =>
      if c = escape ∧ 1 ≤ digits.length ∧ digits.length ≤ 3 then some rest else none
    | _ => none
  | _ => none

def withoutColorsFrom : Nat → List Char → List Char
  | 0, cs => cs
  | _ + 1, [] => []
  | n + 1, c :: rest =>
    match afterColor? (c :: rest) with
    | some rest => withoutColorsFrom n rest
    | none => c :: withoutColorsFrom n rest

/-- The text without its colour sequences, found once from left to right. -/
def withoutColors (s : String) : String :=
  String.ofList (withoutColorsFrom s.length s.toList)

/-- Only a message that is text loses its colours. -/
def stripped (r : Record) : Record :=
  match r.message with
  | .text s => { r with message := .text (withoutColors s) }
  | _ => r

def text (r : Record) : Except SystemFault String :=
  if r.message.isOverlong then .error .overlongInteger
  else Template.fill r.message.display r.arguments

def originSuffix (r : Record) : String :=
  match r.origin with
  | some o => s!" ({o})"
  | none => ""

/-- Informative messages do not say where they come from. -/
def suffix (r : Record) : Level → String
  | .info => ""
  | _ => r.originSuffix

def body (r : Record) (isColored : Bool) (text : String) : String :=
  match Level.ofNumber? r.level with
  | none => text
  | some l =>
    let body := s!"{l.name}:{r.source}:{text}" ++ r.suffix l
    if isColored then colorsBefore l ++ body ++ colorsAfter l else body

def below (s t : String) : String :=
  if t.isEmpty then s
  else if s.toList.getLast? = some '\n' then s ++ t
  else s ++ "\n" ++ t

def line (r : Record) (isColored : Bool) : Except SystemFault String := do
  let r := if isColored then r else r.stripped
  let text ← r.text
  .ok (below (below (r.body isColored text) r.exception) r.stack)

end Record
end FirmwareKit
