import FirmwareKit.Text.Digits
import FirmwareKit.Text.DecimalDigit
import FirmwareKit.Text.Blank
set_option autoImplicit false

/-!
# Text patterns

Patterns are built of characters, classes, groups, alternatives, repetitions and anchors. A pattern
is matched by the set of places where a match that starts at a given place can end.
-/
namespace FirmwareKit

inductive Pattern where
  | empty
  | one (negated : Bool) (ranges : List (Char × Char)) (classes : List (Bool × Char))
  | any
  | seq (p q : Pattern)
  | either (p q : Pattern)
  | repeat (p : Pattern) (least : Nat) (most : Option Nat)
  | atStart
  | atEnd
  | atWord (boundary : Bool)
deriving Repr

namespace Pattern

/-- A place in a text: the character before it and the text behind it. -/
structure Spot where
  before : Option Char
  rest : List Char
deriving DecidableEq, Repr

def isWordChar (c : Char) : Bool :=
  c.isAlphanum || c == '_' || (0x80 ≤ c.toNat && (Text.decimalDigit? c).isSome)
    || (0xC0 ≤ c.toNat && c != '\u00D7' && c != '\u00F7')

def inClass (letter c : Char) : Bool :=
  match letter with
  | 'd' => (Text.decimalDigit? c).isSome
  | 's' => Text.isBlank c
  | _ => isWordChar c

def accepts (negated : Bool) (ranges : List (Char × Char)) (classes : List (Bool × Char))
    (c : Char) : Bool :=
  negated != (ranges.any (fun r => r.1 ≤ c && c ≤ r.2)
    || classes.any (fun k => k.1 != inClass k.2 c))

def wordBefore (s : Spot) : Bool := (s.before.map isWordChar).getD false
def wordAfter (s : Spot) : Bool := (s.rest.head?.map isWordChar).getD false

def union (xs ys : List Spot) : List Spot := xs ++ ys.filter fun y => !xs.contains y

/-- The places reached by at most `n` more rounds of a step. -/
def closure (step : Spot → List Spot) (n : Nat) (reached frontier : List Spot) : List Spot :=
  match n with
  | 0 => reached
  | n + 1 =>
    let next := (frontier.flatMap step).eraseDups.filter fun s => !reached.contains s
    if next.isEmpty then reached else closure step n (reached ++ next) next

def rounds (step : Spot → List Spot) (n : Nat) (spots : List Spot) : List Spot :=
  match n with
  | 0 => spots
  | n + 1 => rounds step n (spots.flatMap step).eraseDups

def ends : Pattern → Spot → List Spot
  | .empty, s => [s]
  | .one negated ranges classes, s =>
    match s.rest with
    | c :: rest => if accepts negated ranges classes c then [⟨some c, rest⟩] else []
    | [] => []
  | .any, s =>
    match s.rest with
    | c :: rest => if c = '\n' then [] else [⟨some c, rest⟩]
    | [] => []
  | .seq p q, s => ((p.ends s).flatMap q.ends).eraseDups
  | .either p q, s => union (p.ends s) (q.ends s)
  | .repeat p least most, s =>
    let start := rounds p.ends least [s]
    match most with
    | some m => closure p.ends (m - least) start start
    | none => closure p.ends (s.rest.length + 1) start start
  | .atStart, s => if s.before.isNone then [s] else []
  | .atEnd, s => if s.rest.isEmpty then [s] else []
  | .atWord boundary, s => if (wordBefore s != wordAfter s) == boundary then [s] else []

def searchFrom (p : Pattern) (before : Option Char) : List Char → Bool
  | [] => !(p.ends ⟨before, []⟩).isEmpty
  | c :: rest => !(p.ends ⟨before, c :: rest⟩).isEmpty || searchFrom p (some c) rest

def search (p : Pattern) (text : String) : Bool := searchFrom p none text.toList

def char (c : Char) : Pattern := .one false [(c, c)] []

def controlLetter? : Char → Option Char
  | 'n' => some '\n'
  | 't' => some '\t'
  | 'r' => some '\r'
  | 'f' => some '\x0C'
  | 'v' => some '\x0B'
  | 'a' => some '\x07'
  | _ => none

def isClassLetter (c : Char) : Bool := ['d', 's', 'w'].contains c.toLower

def codeEscape? (c : Char) (rest : List Char) : Option (Char × List Char) :=
  let digits := match c with
    | 'x' => 2
    | 'u' => 4
    | 'U' => 8
    | _ => 0
  if digits = 0 ∨ rest.length < digits then none
  else (Text.readDigits? 16 (rest.take digits)).map fun n => (Char.ofNat n, rest.drop digits)

def escapedChar? (c : Char) (rest : List Char) : Option (Char × List Char) :=
  match codeEscape? c rest, controlLetter? c with
  | some r, _ => some r
  | none, some d => some (d, rest)
  | none, none =>
    if c = '0' then some ('\x00', rest)
    else if c.isAlphanum then none
    else some (c, rest)

inductive SetItem where
  | range (low high : Char)
  | letter (negated : Bool) (c : Char)

/-- The sign of an end is no item of a set. -/
def setChar? : List Char → Option (SetItem × List Char)
  | [] | '$' :: _ => none
  | '\\' :: c :: rest =>
    if isClassLetter c then some (.letter c.isUpper c.toLower, rest)
    else if c = 'b' then some (.range '\x08' '\x08', rest)
    else (escapedChar? c rest).map fun r => (.range r.1 r.1, r.2)
  | ['\\'] => none
  | c :: rest => some (.range c c, rest)

def setItem? (cs : List Char) : Option (SetItem × List Char) := do
  let (first, rest) ← setChar? cs
  match first, rest with
  | .range low _, '-' :: c :: after =>
    if c = ']' then some (first, rest)
    else
      match ← setChar? (c :: after) with
      | (.range high _, rest) => if low ≤ high then some (.range low high, rest) else none
      | _ => none
  | _, _ => some (first, rest)

/-- The items of a set up to its bracket; a bracket that comes first is an item. -/
def setItems? (fuel : Nat) (first : Bool) (cs : List Char) : Option (List SetItem × List Char) :=
  match fuel with
  | 0 => none
  | fuel + 1 =>
    match cs with
    | [] => none
    | c :: rest =>
      if c = ']' ∧ !first then some ([], rest)
      else do
        let (i, rest) ← setItem? cs
        let (is, rest) ← setItems? fuel false rest
        some (i :: is, rest)

def ofSet (negated : Bool) (items : List SetItem) : Pattern :=
  .one negated
    (items.filterMap fun
      | .range l h => some (l, h)
      | .letter .. => none)
    (items.filterMap fun
      | .letter n c => some (n, c)
      | .range .. => none)

def bounds? (cs : List Char) : Option (Nat × Option Nat × List Char) :=
  let low := cs.takeWhile Char.isDigit
  let value (ds : List Char) : Nat := (Text.readDigits? 10 ds).getD 0
  match cs.dropWhile Char.isDigit with
  | '\x7d' :: rest => if low.isEmpty then none else some (value low, some (value low), rest)
  | ',' :: rest =>
    let high := rest.takeWhile Char.isDigit
    match rest.dropWhile Char.isDigit with
    | '\x7d' :: after =>
      if low.isEmpty && high.isEmpty then none
      else some (value low, if high.isEmpty then none else some (value high), after)
    | _ => none
  | _ => none

def repetition? : List Char → Option (Nat × Option Nat × List Char)
  | '*' :: rest => some (0, none, rest)
  | '+' :: rest => some (1, none, rest)
  | '?' :: rest => some (0, some 1, rest)
  | '\x7b' :: rest => bounds? rest
  | _ => none

/-- A mark for the least number of rounds changes nothing here. -/
def dropLazy : List Char → List Char
  | '?' :: rest => rest
  | cs => cs

def isAnchor : Pattern → Bool
  | .atStart | .atEnd | .atWord _ | .empty => true
  | _ => false

def withRepetition? (p : Pattern) (cs : List Char) : Option (Pattern × List Char) :=
  match repetition? cs with
  | none => some (p, cs)
  | some (least, most, rest) =>
    let rest := dropLazy rest
    if isAnchor p || (repetition? rest).isSome || (most.getD least) < least then none
    else some (.repeat p least most, rest)

def escape? (c : Char) (rest : List Char) : Option (Pattern × List Char) :=
  if isClassLetter c then some (.one false [] [(c.isUpper, c.toLower)], rest)
  else match c with
    | 'A' => some (.atStart, rest)
    | 'Z' => some (.atEnd, rest)
    | 'b' => some (.atWord true, rest)
    | 'B' => some (.atWord false, rest)
    | _ => (escapedChar? c rest).map fun r => (char r.1, r.2)

mutual
def alternatives? (fuel : Nat) (cs : List Char) : Option (Pattern × List Char) :=
  match fuel with
  | 0 => none
  | fuel + 1 => do
    let (p, rest) ← sequence? fuel cs
    match rest with
    | '|' :: rest => do
      let (q, rest) ← alternatives? fuel rest
      some (.either p q, rest)
    | _ => some (p, rest)

def sequence? (fuel : Nat) (cs : List Char) : Option (Pattern × List Char) :=
  match fuel with
  | 0 => none
  | fuel + 1 =>
    match cs with
    | [] => some (.empty, [])
    | '|' :: _ => some (.empty, cs)
    | ')' :: _ => some (.empty, cs)
    | _ => do
      let (p, rest) ← atom? fuel cs
      let (p, rest) ← withRepetition? p rest
      let (q, rest) ← sequence? fuel rest
      some (.seq p q, rest)

def atom? (fuel : Nat) (cs : List Char) : Option (Pattern × List Char) :=
  match fuel with
  | 0 => none
  | fuel + 1 =>
    match cs with
    | [] => none
    | '\\' :: c :: rest => escape? c rest
    | '[' :: '^' :: rest =>
      (setItems? (rest.length + 1) true rest).map fun r => (ofSet true r.1, r.2)
    | '[' :: rest => (setItems? (rest.length + 1) true rest).map fun r => (ofSet false r.1, r.2)
    | '(' :: '?' :: ':' :: rest => group? fuel rest
    | '(' :: '?' :: _ => none
    | '(' :: rest => group? fuel rest
    | '.' :: rest => some (.any, rest)
    | '^' :: rest => some (.atStart, rest)
    | '$' :: rest => some (.atEnd, rest)
    | c :: rest =>
      if c = '\\' ∨ (repetition? cs).isSome then none else some (char c, rest)

def group? (fuel : Nat) (cs : List Char) : Option (Pattern × List Char) :=
  match fuel with
  | 0 => none
  | fuel + 1 => do
    let (p, rest) ← alternatives? fuel cs
    match rest with
    | ')' :: rest => some (p, rest)
    | _ => none
end

def parse? (source : String) : Option Pattern := do
  let cs := source.toList
  let (p, rest) ← alternatives? (4 * cs.length + 4) cs
  if rest.isEmpty then some p else none

end Pattern
end FirmwareKit
