import FirmwareKit.Numeral.Integer
set_option autoImplicit false

/-!
# Reading JSON

A text is one value between blanks. Beside the standard's values there are words for the numbers
that have no digits. Of the entries of an object with the same name the last counts. An integer of
too many digits stops the reading at once, and so does a list or an object that is nested too deeply.
-/
namespace FirmwareKit.Json

inductive Refusal where
  | malformed
  | tooManyDigits (count : Nat)
  | tooDeep (container : String)
deriving DecidableEq, Repr

def isBlank (c : Char) : Bool := c == ' ' || c == '\t' || c == '\n' || c == '\r'

def skipBlanks (cs : List Char) : List Char := cs.dropWhile isBlank

def escapedChar? : Char → Option Char
  | '"' => some '"'
  | '\\' => some '\\'
  | '/' => some '/'
  | 'b' => some '\x08'
  | 'f' => some '\x0C'
  | 'n' => some '\n'
  | 'r' => some '\r'
  | 't' => some '\t'
  | _ => none

def fourDigits? (cs : List Char) : Option (Nat × List Char) :=
  if (cs.take 4).length = 4 then (Text.readDigits? 16 (cs.take 4)).map fun n => (n, cs.drop 4)
  else none

def isHighSurrogate (n : Nat) : Bool := 0xD800 ≤ n && n ≤ 0xDBFF
def isLowSurrogate (n : Nat) : Bool := 0xDC00 ≤ n && n ≤ 0xDFFF

/-- A high and a low surrogate together stand for one character. -/
def unicodeEscape? (cs : List Char) : Option (Char × List Char) := do
  let (high, rest) ← fourDigits? cs
  if isHighSurrogate high then
    match rest with
    | '\\' :: 'u' :: more =>
      match fourDigits? more with
      | some (low, after) =>
        if isLowSurrogate low then
          some (Char.ofNat (0x10000 + (high - 0xD800) * 0x400 + (low - 0xDC00)), after)
        else some ('\uFFFD', rest)
      | none => some ('\uFFFD', rest)
    | _ => some ('\uFFFD', rest)
  else if isLowSurrogate high then some ('\uFFFD', rest)
  else some (Char.ofNat high, rest)

def readText (fuel : Nat) (cs : List Char) : Except Refusal (List Char × List Char) :=
  match fuel with
  | 0 => .error .malformed
  | fuel + 1 =>
    match cs with
    | [] => .error .malformed
    | '"' :: rest => .ok ([], rest)
    | '\\' :: 'u' :: rest =>
      match unicodeEscape? rest with
      | some (c, rest) => (readText fuel rest).map fun r => (c :: r.1, r.2)
      | none => .error .malformed
    | '\\' :: x :: rest =>
      match escapedChar? x with
      | some c => (readText fuel rest).map fun r => (c :: r.1, r.2)
      | none => .error .malformed
    | c :: rest =>
      if c = '\\' ∨ c.toNat < 0x20 then .error .malformed
      else (readText fuel rest).map fun r => (c :: r.1, r.2)

def splitInteger? (cs : List Char) : Option (List Char × List Char) :=
  match cs with
  | '0' :: rest => some (['0'], rest)
  | _ =>
    let ds := cs.takeWhile Char.isDigit
    if ds.isEmpty then none else some (ds, cs.dropWhile Char.isDigit)

/-- The digits behind a point; a point without digits is not part of the number. -/
def splitFraction (cs : List Char) : List Char × List Char :=
  match cs with
  | '.' :: rest =>
    let ds := rest.takeWhile Char.isDigit
    if ds.isEmpty then ([], cs) else ('.' :: ds, rest.dropWhile Char.isDigit)
  | _ => ([], cs)

def splitExponent (cs : List Char) : List Char × List Char :=
  match cs with
  | e :: rest =>
    if e = 'e' ∨ e = 'E' then
      let (sign, digits) := match rest with
        | '+' :: r => (['+'], r)
        | '-' :: r => (['-'], r)
        | r => ([], r)
      let ds := digits.takeWhile Char.isDigit
      if ds.isEmpty then ([], cs) else (e :: sign ++ ds, digits.dropWhile Char.isDigit)
    else ([], cs)
  | [] => ([], cs)

def readNumber (cs : List Char) : Except Refusal (Value × List Char) :=
  let (sign, body) := match cs with
    | '-' :: rest => (['-'], rest)
    | _ => ([], cs)
  match splitInteger? body with
  | none => .error .malformed
  | some (whole, rest) =>
    let (frac, rest) := splitFraction rest
    let (exp, rest) := splitExponent rest
    if frac.isEmpty && exp.isEmpty then
      match Numeral.readInteger 10 (sign ++ whole) with
      | .ok n => .ok (.int n, rest)
      | .error (.tooManyDigits n) => .error (.tooManyDigits n)
      | .error .malformed => .error .malformed
    else
      match Binary64.parse? (String.ofList (sign ++ whole ++ frac ++ exp)) with
      | some x => .ok (.float x, rest)
      | none => .error .malformed

def words : List (String × Value) := [
  ("null", .null), ("true", .bool true), ("false", .bool false), ("NaN", .float .nan),
  ("Infinity", .float (.infinity false)), ("-Infinity", .float (.infinity true))]

def readWord? (cs : List Char) : Option (Value × List Char) :=
  (words.find? fun w => w.1.toList.isPrefixOf cs).map fun w => (w.2, cs.drop w.1.length)

def inside {α : Type} (container : String) (room : Nat) (read : Nat → Except Refusal α) :
    Except Refusal α :=
  match room with
  | 0 => .error (.tooDeep container)
  | room + 1 => read room

mutual
def readValue (fuel room : Nat) (cs : List Char) : Except Refusal (Value × List Char) :=
  match fuel with
  | 0 => .error .malformed
  | fuel + 1 =>
    match cs with
    | '"' :: rest => (readText (rest.length + 1) rest).map fun r => (.text (String.ofList r.1), r.2)
    | '[' :: rest => inside "array" room fun room =>
      match skipBlanks rest with
      | ']' :: rest => .ok (.list [], rest)
      | rest => (readItems fuel room rest).map fun r => (.list r.1, r.2)
    | '\x7b' :: rest => inside "object" room fun room =>
      match skipBlanks rest with
      | '\x7d' :: rest => .ok (.map [], rest)
      | rest => (readEntries fuel room rest).map fun r => (.map (Value.Entries.ofPairs r.1), r.2)
    | _ =>
      match readWord? cs with
      | some r => .ok r
      | none => readNumber cs

def readItems (fuel room : Nat) (cs : List Char) : Except Refusal (List Value × List Char) :=
  match fuel with
  | 0 => .error .malformed
  | fuel + 1 => do
    let (v, rest) ← readValue fuel room cs
    match skipBlanks rest with
    | ']' :: rest => .ok ([v], rest)
    | ',' :: rest => do
      let (vs, rest) ← readItems fuel room (skipBlanks rest)
      .ok (v :: vs, rest)
    | _ => .error .malformed

def readEntries (fuel room : Nat) (cs : List Char) :
    Except Refusal (List (Value × Value) × List Char) :=
  match fuel with
  | 0 => .error .malformed
  | fuel + 1 =>
    match cs with
    | '"' :: rest => do
      let (name, rest) ← readText (rest.length + 1) rest
      match skipBlanks rest with
      | ':' :: rest => do
        let (v, rest) ← readValue fuel room (skipBlanks rest)
        let entry : Value × Value := (.text (String.ofList name), v)
        match skipBlanks rest with
        | '\x7d' :: rest => .ok ([entry], rest)
        | ',' :: rest => do
          let (es, rest) ← readEntries fuel room (skipBlanks rest)
          .ok (entry :: es, rest)
        | _ => .error .malformed
      | _ => .error .malformed
    | _ => .error .malformed
end

def load (room : Nat) (text : String) : Except Refusal Value := do
  let cs := text.toList
  let (v, rest) ← readValue (2 * cs.length + 2) room (skipBlanks cs)
  if (skipBlanks rest).isEmpty then .ok v else .error .malformed

end FirmwareKit.Json
