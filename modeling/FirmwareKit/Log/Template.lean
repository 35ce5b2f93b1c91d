import FirmwareKit.Log.Level
import FirmwareKit.SystemFault
set_option autoImplicit false

/-!
# Message templates

A template is text with placeholders, each a percent sign, an optional key in parentheses, flags, a
width, a precision and a letter that says how the next argument is written. A star in place of the
width or the precision takes it from the arguments too. What is wrong with a placeholder shows only
when it is filled, after all before it.
-/
namespace FirmwareKit.Template

structure Flags where
  left : Bool
  signed : Bool
  blank : Bool
  alternate : Bool
  zero : Bool
deriving DecidableEq, Repr

def Flags.none : Flags := ⟨false, false, false, false, false⟩

def Flags.add? (f : Flags) : Char → Option Flags
  | '-' => some { f with left := true }
  | '+' => some { f with signed := true }
  | ' ' => some { f with blank := true }
  | '#' => some { f with alternate := true }
  | '0' => some { f with zero := true }
  | _ => Option.none

inductive Amount where
  | absent
  | fixed (n : Nat)
  | taken
deriving DecidableEq, Repr

inductive Key where
  | absent
  | named (key : String)
  | unclosed
deriving DecidableEq, Repr

/-- A placeholder whose letter is missing ends the template too early. -/
structure Placeholder where
  key : Key
  flags : Flags
  width : Amount
  precision : Amount
  letter : Option Char
deriving DecidableEq, Repr

inductive Piece where
  | text (c : Char)
  | placeholder (p : Placeholder)
deriving DecidableEq, Repr

/-! ## Reading -/

def readFlags (f : Flags) : List Char → Flags × List Char
  | [] => (f, [])
  | c :: rest =>
    match f.add? c with
    | some f => readFlags f rest
    | none => (f, c :: rest)

def readAmount : List Char → Amount × List Char
  | '*' :: rest => (.taken, rest)
  | cs =>
    match cs.takeWhile Char.isDigit with
    | [] => (.absent, cs)
    | ds => (.fixed ((Text.readDigits? 10 ds).getD 0), cs.dropWhile Char.isDigit)

/-- A point without an amount stands for a precision of zero. -/
def readPrecision : List Char → Amount × List Char
  | '.' :: rest =>
    match readAmount rest with
    | (.absent, rest) => (.fixed 0, rest)
    | r => r
  | cs => (.absent, cs)

def readKey (depth : Nat) (key : List Char) : List Char → Key × List Char
  | [] => (.unclosed, [])
  | '(' :: rest => readKey (depth + 1) ('(' :: key) rest
  | ')' :: rest =>
    match depth with
    | 0 => (.named (String.ofList key.reverse), rest)
    | depth + 1 => readKey depth (')' :: key) rest
  | c :: rest => readKey depth (c :: key) rest

def dropSize : List Char → List Char
  | 'h' :: rest | 'l' :: rest | 'L' :: rest => rest
  | cs => cs

def readPlaceholder (cs : List Char) : Placeholder × List Char :=
  let (key, cs) := match cs with
    | '(' :: rest => readKey 0 [] rest
    | cs => (.absent, cs)
  let (flags, cs) := readFlags .none cs
  let (width, cs) := readAmount cs
  let (precision, cs) := readPrecision cs
  let cs := dropSize cs
  (⟨key, flags, width, precision, cs.head?⟩, cs.tail)

def piecesWithin : Nat → List Char → List Piece
  | 0, _ => []
  | _ + 1, [] => []
  | n + 1, '%' :: '%' :: rest => .text '%' :: piecesWithin n rest
  | n + 1, '%' :: rest =>
    let (p, rest) := readPlaceholder rest
    .placeholder p :: piecesWithin n rest
  | n + 1, c :: rest => .text c :: piecesWithin n rest

def pieces (template : String) : List Piece :=
  piecesWithin template.length template.toList

/-! ## Arguments -/

/-- Arguments are taken in order, or by key out of a single mapping. A value looked up by key, and
the mapping itself, can be taken once. -/
inductive Arguments where
  | ordered (rest : List Value)
  | keyed (entries : Value.Entries) (current : Value) (isTaken : Bool)

namespace Arguments

def ofValues : List Value → Arguments
  | [.map es] => if es.isEmpty then .ordered [.map es] else .keyed es (.map es) false
  | vs => .ordered vs

def tooFew : SystemFault := .wrongType "not enough arguments for format string"
def tooMany : SystemFault := .wrongType "not all arguments converted during string formatting"

def take : Arguments → Except SystemFault (Value × Arguments)
  | .ordered [] => .error tooFew
  | .ordered (v :: rest) => .ok (v, .ordered rest)
  | .keyed es v false => .ok (v, .keyed es v true)
  | .keyed _ _ true => .error tooFew

def select (a : Arguments) : Key → Except SystemFault Arguments
  | .absent => .ok a
  | key =>
    match a, key with
    | .ordered _, _ => .error (.wrongType "format requires a mapping")
    | _, .unclosed => .error (.badValue "incomplete format key")
    | .keyed es _ _, .named k =>
      match Value.Entries.get? es (.text k) with
      | some v => .ok (.keyed es v false)
      | none => .error (.absentKey (.text k))
    | a, .absent => .ok a

/-- An amount of at most so much; a fixed one that is greater is a bad template. -/
def amount (limit : Nat) (a : Arguments) : Amount → Except SystemFault (Option Int × Arguments)
  | .absent => .ok (none, a)
  | .fixed n => if limit < n then .error (.badValue "width too big") else .ok (some n, a)
  | .taken => do
    match ← a.take with
    | (.int n, a) =>
      if limit < n.natAbs then .error (.overflow "integer too large") else .ok (some n, a)
    | (.bool b, a) => .ok (some b.toNat, a)
    | _ => .error (.wrongType "* wants int")

end Arguments

/-! ## Writing -/

structure Written where
  sign : Option Char
  radix : List Char
  body : List Char
  isNumber : Bool

def Written.plain (cs : List Char) : Written := ⟨none, [], cs, false⟩

def signOf (f : Flags) (isNegative : Bool) : Option Char :=
  if isNegative then some '-'
  else if f.signed then some '+'
  else if f.blank then some ' '
  else none

/-- Zeros stand between the sign and the number, blanks before or behind all. -/
def justify (f : Flags) (width : Nat) (w : Written) : List Char :=
  let head := w.sign.toList ++ w.radix
  let missing := width - (head.length + w.body.length)
  if f.left then head ++ w.body ++ List.replicate missing ' '
  else if f.zero && w.isNumber then head ++ List.replicate missing '0' ++ w.body
  else List.replicate missing ' ' ++ head ++ w.body

def asNumber (letter : Char) (v : Value) : Except SystemFault Int :=
  match v with
  | .int n => .ok n
  | .bool b => .ok b.toNat
  | .float x =>
    if letter = 'o' ∨ letter = 'x' ∨ letter = 'X' then
      .error (.wrongType s!"%{letter} format: an integer is required, not float")
    else match x.truncate? with
      | some n => .ok n
      | none =>
        if x = .nan then .error (.badValue "cannot convert float NaN to integer")
        else .error (.overflow "cannot convert float infinity to integer")
  | v => .error (.wrongType s!"%{letter} format: a real number is required, not {v.typeName}")

def radixOf (letter : Char) : Nat :=
  if letter = 'o' then 8 else if letter = 'x' ∨ letter = 'X' then 16 else 10

def writeInteger (f : Flags) (precision : Option Nat) (letter : Char) (n : Int) :
    Except SystemFault Written :=
  let radix := radixOf letter
  if radix = 10 ∧ Value.isLongInteger n then .error .overlongInteger
  else
    let ds := Text.padLeft (precision.getD 0) '0' (Nat.toDigits radix n.natAbs)
    .ok ⟨signOf f (n < 0), if f.alternate ∧ radix ≠ 10 then ['0', letter] else [],
      if letter = 'X' then ds.map Char.toUpper else ds, true⟩

def withPoint (f : Flags) (cs : List Char) : List Char :=
  if f.alternate && !cs.contains '.' then cs ++ ['.'] else cs

def exponential (f : Flags) (ds : List Char) (e : Int) : List Char :=
  let head := match ds with
    | [] => []
    | [d] => [d]
    | d :: rest => d :: '.' :: rest
  withPoint f head ++ 'e' :: Binary64.exponentText e

def significant (places num den : Nat) : List Char × Int :=
  if num = 0 then (List.replicate (places + 1) '0', 0) else Binary64.roundDigits places num den

/-- Zeros at the end are dropped unless the alternate form is asked for. -/
def dropZeros (f : Flags) (ds : List Char) : List Char :=
  if f.alternate then ds else Binary64.stripZeros ds

/-- The shorter of the two notations: exponents from -4 up to the precision are positional. -/
def general (f : Flags) (precision num den : Nat) : List Char :=
  let digits := max precision 1
  let (ds, e) := significant (digits - 1) num den
  if -4 ≤ e ∧ e < digits then
    let k := e + 1
    if k ≤ 0 then '0' :: '.' :: List.replicate k.natAbs '0' ++ dropZeros f ds
    else
      let whole := Text.padRight k.toNat '0' (ds.take k.toNat)
      let frac := dropZeros f (ds.drop k.toNat)
      if frac.isEmpty then withPoint f whole else whole ++ '.' :: frac
  else exponential f (dropZeros f ds) e

def magnitude (f : Flags) (precision : Nat) (letter : Char) (num den : Nat) : List Char :=
  if letter = 'f' then withPoint f (Binary64.fixedPlaces precision num den)
  else if letter = 'e' then
    let (ds, e) := significant precision num den
    exponential f ds e
  else general f precision num den

def asFloat (v : Value) : Except SystemFault Binary64 :=
  match v with
  | .float x => .ok x
  | .bool b => .ok (.ofInt b.toNat)
  | .int n =>
    match Binary64.ofInt n with
    | .infinity _ => .error (.overflow "int too large to convert to float")
    | x => .ok x
  | v => .error (.wrongType s!"must be real number, not {v.typeName}")

def writeFloat (f : Flags) (precision : Option Nat) (letter : Char) (x : Binary64) : Written :=
  let body := match x with
    | .nan => ['n', 'a', 'n']
    | .infinity _ => ['i', 'n', 'f']
    | .finite _ m e =>
      let (num, den) := Binary64.magnitude m e
      magnitude f (precision.getD 6) letter.toLower num den
  ⟨signOf f x.isNegative, [], if letter.isUpper then body.map Char.toUpper else body, true⟩

def escapeNonAscii (cs : List Char) : List Char :=
  cs.flatMap fun c => if c.toNat < 128 then [c] else Text.escapeCode c.toNat

def writeText (precision : Option Nat) (cs : List Char) : Written :=
  .plain (match precision with
    | some n => cs.take n
    | none => cs)

def writeChar : Value → Except SystemFault Written
  | .text s =>
    match s.toList with
    | [c] => .ok (.plain [c])
    | _ => .error (.wrongType "%c requires int or char")
  | .bool b => .ok (.plain [Char.ofNat b.toNat])
  | .int n =>
    if 0 ≤ n ∧ n < 0x110000 then .ok (.plain [Char.ofNat n.toNat])
    else .error (.overflow "%c arg not in range(0x110000)")
  | _ => .error (.wrongType "%c requires int or char")

def write (f : Flags) (precision : Option Nat) (letter : Char) (v : Value) :
    Except SystemFault Written :=
  let shown (s : String) : Except SystemFault Written :=
    if v.isOverlong then .error .overlongInteger else .ok (writeText precision s.toList)
  if letter = 's' then shown v.display
  else if letter = 'r' then shown v.quoted
  else if letter = 'a' then shown (String.ofList (escapeNonAscii v.quoted.toList))
  else if letter = 'c' then writeChar v
  else if "diuoxX".toList.contains letter then do
    writeInteger f precision letter (← asNumber letter v)
  else if "eEfFgG".toList.contains letter then do
    return writeFloat f precision letter (← asFloat v)
  else .error (.badValue s!"unsupported format character '{letter}'")

def greatestWidth : Nat := Nat.pow 2 63 - 1
def greatestPrecision : Nat := Nat.pow 2 31 - 1

/-- A negative width stands for a width with text at the left, a negative precision for none of
the places. -/
def fillPlaceholder (p : Placeholder) (a : Arguments) :
    Except SystemFault (List Char × Arguments) := do
  let a ← a.select p.key
  let (width, a) ← a.amount greatestWidth p.width
  let (precision, a) ← a.amount greatestPrecision p.precision
  let flags := if width.getD 0 < 0 then { p.flags with left := true } else p.flags
  match p.letter with
  | none => .error (.badValue "incomplete format")
  | some letter => do
    let (v, a) ← a.take
    let w ← write flags (precision.map Int.toNat) letter v
    .ok (justify flags (width.getD 0).natAbs w, a)

/-- All arguments have to be taken, unless they are taken by key. -/
def fillPieces : List Piece → Arguments → Except SystemFault (List Char)
  | [], .ordered (_ :: _) => .error Arguments.tooMany
  | [], _ => .ok []
  | .text c :: rest, a => (fillPieces rest a).map (c :: ·)
  | .placeholder p :: rest, a => do
    let (cs, a) ← fillPlaceholder p a
    if let .keyed _ _ false := a then .error Arguments.tooMany
    return cs ++ (← fillPieces rest a)

/-- A template without arguments stands for itself. -/
def fill (template : String) (arguments : List Value) : Except SystemFault String :=
  if arguments.isEmpty then .ok template
  else (fillPieces (pieces template) (.ofValues arguments)).map String.ofList

end FirmwareKit.Template
