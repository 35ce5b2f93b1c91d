import FirmwareKit.Numeral.Integer
import FirmwareKit.Yaml.Scalar
import FirmwareKit.Yaml.Token
set_option autoImplicit false

/-!
# Reading YAML tokens

The lexer keeps the columns of the open blocks and, for each level of flow collections, the place
where a key without mark may have begun. A value mark that finds such a place on its line, at most
1024 characters back, puts the key mark in front of the tokens read since.
-/
namespace FirmwareKit.Yaml

/-- A place where a key may have begun: how many tokens stood before it, and where it was. -/
structure KeyPlace where
  tokenCount : Nat
  required : Bool
  index : Nat
  line : Nat
  column : Nat
deriving Repr

structure Lexer where
  cursor : Cursor
  tokens : List Token
  flowLevel : Nat
  indent : Int
  indents : List Int
  keyAllowed : Bool
  keyPlaces : List (Nat × KeyPlace)
deriving Repr

namespace Lexer

def start (text : List Char) : Lexer :=
  ⟨Cursor.start text, [], 0, -1, [], true, []⟩

def farthestKey : Nat := 1024

def push (l : Lexer) (t : Token) : Lexer := { l with tokens := l.tokens ++ [t] }

def at_ (l : Lexer) (c : Cursor) : Lexer := { l with cursor := c }

def allowKey (l : Lexer) (allowed : Bool) : Lexer := { l with keyAllowed := allowed }

def inFlow (l : Lexer) : Bool := l.flowLevel != 0

def column (l : Lexer) : Int := l.cursor.column

def isStale (c : Cursor) (k : KeyPlace) : Bool :=
  k.line != c.line || farthestKey < c.index - k.index

/-- Places too far back are given up; one where a key has to stand must not be. -/
def dropStale (l : Lexer) : Except Refusal Lexer :=
  if l.keyPlaces.any fun k => isStale l.cursor k.2 && k.2.required then .error .malformed
  else .ok { l with keyPlaces := l.keyPlaces.filter fun k => !isStale l.cursor k.2 }

def keyPlace? (l : Lexer) : Option KeyPlace :=
  (l.keyPlaces.find? fun k => k.1 == l.flowLevel).map Prod.snd

def withoutKeyPlace (l : Lexer) : Lexer :=
  { l with keyPlaces := l.keyPlaces.filter fun k => k.1 != l.flowLevel }

def dropKeyPlace (l : Lexer) : Except Refusal Lexer :=
  match l.keyPlace? with
  | some k => if k.required then .error .malformed else .ok l.withoutKeyPlace
  | none => .ok l

def saveKeyPlace (l : Lexer) : Except Refusal Lexer :=
  if l.keyAllowed then do
    let required := !l.inFlow && l.indent == l.column
    let l ← l.dropKeyPlace
    let k : KeyPlace :=
      ⟨l.tokens.length, required, l.cursor.index, l.cursor.line, l.cursor.column⟩
    pure { l with keyPlaces := (l.flowLevel, k) :: l.keyPlaces }
  else pure l

def unwindFrom (column : Int) (indent : Int) (indents : List Int) (tokens : List Token) :
    Int × List Int × List Token :=
  if indent ≤ column then (indent, indents, tokens)
  else match indents with
    | [] => (indent, [], tokens)
    | i :: rest => unwindFrom column i rest (tokens ++ [.blockEnd])

def unwind (l : Lexer) (column : Int) : Lexer :=
  if l.inFlow then l
  else
    let (indent, indents, tokens) := unwindFrom column l.indent l.indents l.tokens
    { l with indent, indents, tokens }

/-- Opens a block at a column deeper than the open ones, its token in front of the later ones. -/
def openBlock (l : Lexer) (column : Int) (tokenCount : Nat) (t : Token) : Lexer :=
  if l.indent < column then
    { l with
      indent := column
      indents := l.indent :: l.indents
      tokens := l.tokens.take tokenCount ++ t :: l.tokens.drop tokenCount }
  else l

/-- Skips blanks, comments and line breaks; a break outside flow collections allows a key. -/
def skipGap (fuel : Nat) (l : Lexer) : Lexer :=
  match fuel with
  | 0 => l
  | fuel + 1 =>
    let c := l.cursor.skipSpaces
    let c := if c.peek = some '#' then c.skipWhile (fun x => !isBreak x) else c
    match c.lineBreak? with
    | some (_, c) => skipGap fuel ((l.at_ c).allowKey (l.keyAllowed || !l.inFlow))
    | none => l.at_ c

def skipMark (c : Cursor) : Cursor := if c.index = 0 ∧ c.peek = some '\uFEFF' then c.next else c

/-! Directives -/

def number (c : Cursor) : Except Refusal (Nat × Cursor) :=
  let (ds, c) := c.takeWhile Char.isDigit
  match ds with
  | [] => .error .malformed
  | ds =>
    match Numeral.readInteger 10 ds with
    | .ok n => .ok (n.toNat, c)
    | .error r => .error (.system (r.toFault 10 ds))

def versionDirective (c : Cursor) : Except Refusal (Directive × Cursor) := do
  let (major, c) ← number c.skipSpaces
  if c.peek ≠ some '.' then .error .malformed
  else
    let (minor, c) ← number c.next
    if isSpaceOrBreak c.peek then pure (.version major minor, c) else .error .malformed

def tagHandle (c : Cursor) : Except Refusal (List Char × Cursor) :=
  if c.peek ≠ some '!' then .error .malformed
  else if c.peekAt 1 = some ' ' then .ok (['!'], c.next)
  else
    let (word, d) := c.next.takeWhile isWordChar
    if d.peek = some '!' then .ok ('!' :: word ++ ['!'], d.next) else .error .malformed

def isUriChar (c : Char) : Bool :=
  c.isAlphanum || "-;/?:@&=+$,_.!~*'()[]".toList.contains c

def uriEscapes (fuel : Nat) (c : Cursor) : Except Refusal (List UInt8 × Cursor) :=
  match fuel with
  | 0 => .ok ([], c)
  | fuel + 1 =>
    if c.peek = some '%' then
      let digits := c.next.rest.take 2
      match digits.length, Text.readDigits? 16 digits with
      | 2, some n => (uriEscapes fuel (c.skip 3)).map fun r => (UInt8.ofNat n :: r.1, r.2)
      | _, _ => .error .malformed
    else .ok ([], c)

def uriPart (fuel : Nat) (c : Cursor) : Except Refusal (List Char × Cursor) :=
  match fuel with
  | 0 => .ok ([], c)
  | fuel + 1 => do
    let (run, c) := c.takeWhile isUriChar
    if c.peek = some '%' then
      let (bytes, c) ← uriEscapes (c.rest.length + 1) c
      match Text.Utf8.decode bytes with
      | .error _ => .error .malformed
      | .ok cs =>
        let (rest, c) ← uriPart fuel c
        pure (run ++ cs ++ rest, c)
    else pure (run, c)

def uri (c : Cursor) : Except Refusal (List Char × Cursor) := do
  let (cs, d) ← uriPart (c.rest.length + 1) c
  if d.index = c.index then .error .malformed else pure (cs, d)

def tagDirective (c : Cursor) : Except Refusal (Directive × Cursor) := do
  let (handle, c) ← tagHandle c.skipSpaces
  if c.peek ≠ some ' ' then .error .malformed
  else
    let (lead, c) ← uri c.skipSpaces
    if isSpaceOrBreak c.peek then
      pure (.tagHandle (String.ofList handle) (String.ofList lead), c)
    else .error .malformed

def directive (c : Cursor) : Except Refusal (Directive × Cursor) := do
  let (name, c) := c.next.takeWhile isWordChar
  if name.isEmpty || !isSpaceOrBreak c.peek then .error .malformed
  else
    let (d, c) ← match String.ofList name with
      | "YAML" => versionDirective c
      | "TAG" => tagDirective c
      | _ => pure (.other, c.skipWhile fun x => !isBreak x)
    let some c := c.endLine? | .error .malformed
    pure (d, c)

/-! Anchors, aliases and tags -/

def endsAnchor : Option Char → Bool
  | none => true
  | some c => isBlank c || isBreak c || "?:,]\x7d%@`".toList.contains c

def anchorName (c : Cursor) : Except Refusal (String × Cursor) :=
  let (name, c) := c.next.takeWhile isWordChar
  if name.isEmpty || !endsAnchor c.peek then .error .malformed
  else .ok (String.ofList name, c)

def hasSecondMark (c : Cursor) : Bool :=
  (c.next.rest.takeWhile fun x => !(x == ' ' || isBreak x)).contains '!'

def tag (c : Cursor) : Except Refusal (Token × Cursor) := do
  let (t, c) ←
    if c.peekAt 1 = some '<' then do
      let (suffix, c) ← uri (c.skip 2)
      if c.peek = some '>' then pure (Token.tag none (String.ofList suffix), c.next)
      else .error .malformed
    else if isBlankOrBreak (c.peekAt 1) then pure (Token.tag none "!", c.next)
    else do
      let (handle, c) ← if hasSecondMark c then tagHandle c else pure (['!'], c.next)
      let (suffix, c) ← uri c
      pure (Token.tag (some (String.ofList handle)) (String.ofList suffix), c)
  if isSpaceOrBreak c.peek then pure (t, c) else .error .malformed

/-! Tokens -/

def documentMark (l : Lexer) (t : Token) : Except Refusal Lexer := do
  let l ← (l.unwind (-1)).dropKeyPlace
  pure (((l.allowKey false).push t).at_ (l.cursor.skip 3))

def directiveToken (l : Lexer) : Except Refusal Lexer := do
  let l ← (l.unwind (-1)).dropKeyPlace
  let (d, c) ← directive l.cursor
  pure (((l.allowKey false).push (.directive d)).at_ c)

def openFlow (l : Lexer) (t : Token) : Except Refusal Lexer := do
  let l ← l.saveKeyPlace
  pure { l with
    flowLevel := l.flowLevel + 1
    keyAllowed := true
    cursor := l.cursor.next
    tokens := l.tokens ++ [t] }

def closeFlow (l : Lexer) (t : Token) : Except Refusal Lexer := do
  if l.inFlow then
    let l ← l.dropKeyPlace
    pure { l with
      flowLevel := l.flowLevel - 1
      keyAllowed := false
      cursor := l.cursor.next
      tokens := l.tokens ++ [t] }
  else .error .malformed

def simpleMark (l : Lexer) (t : Token) (allowed : Bool) : Except Refusal Lexer := do
  let l ← l.dropKeyPlace
  pure (((l.allowKey allowed).push t).at_ l.cursor.next)

def blockEntry (l : Lexer) : Except Refusal Lexer :=
  if l.inFlow then l.simpleMark .blockEntry true
  else if l.keyAllowed then
    (l.openBlock l.column l.tokens.length .blockSequenceStart).simpleMark .blockEntry true
  else .error .malformed

def keyMark (l : Lexer) : Except Refusal Lexer :=
  if l.inFlow then l.simpleMark .key false
  else if l.keyAllowed then
    (l.openBlock l.column l.tokens.length .blockMappingStart).simpleMark .key true
  else .error .malformed

def insertAt (ts : List Token) (n : Nat) (t : Token) : List Token := ts.take n ++ t :: ts.drop n

def valueMark (l : Lexer) : Except Refusal Lexer :=
  match l.keyPlace? with
  | some k =>
    let l := { l.withoutKeyPlace with tokens := insertAt l.tokens k.tokenCount .key }
    let l := if l.inFlow then l else l.openBlock k.column k.tokenCount .blockMappingStart
    .ok (((l.allowKey false).push .value).at_ l.cursor.next)
  | none =>
    if l.inFlow then l.simpleMark .value false
    else if l.keyAllowed then
      (l.openBlock l.column l.tokens.length .blockMappingStart).simpleMark .value true
    else .error .malformed

def keyToken (l : Lexer) (read : Cursor → Except Refusal (Token × Cursor)) :
    Except Refusal Lexer := do
  let l ← l.saveKeyPlace
  let (t, c) ← read l.cursor
  pure (((l.allowKey false).push t).at_ c)

def block (l : Lexer) (folded : Bool) : Except Refusal Lexer := do
  let l ← l.dropKeyPlace
  let (text, c) ← blockScalar folded l.indent l.cursor.next
  pure (((l.allowKey true).push (.scalar (String.ofList text) false)).at_ c)

def quoted (l : Lexer) (double : Bool) : Except Refusal Lexer :=
  l.keyToken fun c => do
    let (text, c) ← quotedScalar double (c.rest.length + 1) c.next
    pure (.scalar (String.ofList text) false, c)

def plain (l : Lexer) : Except Refusal Lexer := do
  let l ← l.saveKeyPlace
  let c := l.cursor
  let r := plainScalar l.inFlow (l.indent + 1) (c.rest.length + 1) [] false c
  pure (((l.allowKey r.endedLine).push (.scalar (String.ofList r.text) true)).at_ r.cursor)

/-- Marks that no plain scalar begins with, unless something follows some of them directly. -/
def isMark (c : Char) : Bool := "-?:,[]\x7b\x7d#&*!|>'\"%@`".toList.contains c

def startsPlain (l : Lexer) (x : Char) : Bool :=
  !(isBlank x || isBreak x || isMark x)
    || (!isBlankOrBreak (l.cursor.peekAt 1) && (x == '-' || (!l.inFlow && (x == '?' || x == ':'))))

def atDocumentMark (c : Cursor) : Bool := c.column == 0 && c.atSeparator

def next (l : Lexer) : Except Refusal (Option Lexer) := do
  let l ← (skipGap (l.cursor.rest.length + 1) (l.at_ (skipMark l.cursor))).dropStale
  let l := l.unwind l.column
  let c := l.cursor
  match c.peek with
  | none => pure none
  | some x =>
    let marked := isBlankOrBreak (c.peekAt 1)
    let step : Except Refusal Lexer :=
      if x == '%' && c.column == 0 then l.directiveToken
      else if x == '-' && atDocumentMark c then l.documentMark .documentStart
      else if x == '.' && atDocumentMark c then l.documentMark .documentEnd
      else if x == '[' then l.openFlow .flowSequenceStart
      else if x == '\x7b' then l.openFlow .flowMappingStart
      else if x == ']' then l.closeFlow .flowSequenceEnd
      else if x == '\x7d' then l.closeFlow .flowMappingEnd
      else if x == ',' then l.simpleMark .flowEntry true
      else if x == '-' && marked then l.blockEntry
      else if x == '?' && (l.inFlow || marked) then l.keyMark
      else if x == ':' && (l.inFlow || marked) then l.valueMark
      else if x == '*' then
        l.keyToken fun c => (anchorName c).map fun r => (.alias r.1, r.2)
      else if x == '&' then
        l.keyToken fun c => (anchorName c).map fun r => (.anchor r.1, r.2)
      else if x == '!' then l.keyToken tag
      else if x == '|' && !l.inFlow then l.block false
      else if x == '>' && !l.inFlow then l.block true
      else if x == '\'' then l.quoted false
      else if x == '"' then l.quoted true
      else if l.startsPlain x then l.plain
      else .error .malformed
    step.map some

/-- How many tokens are settled: the others may still get a key mark in front of them. -/
def settledCount (l : Lexer) : Nat :=
  ((l.keyPlaces.filter fun k => !isStale l.cursor k.2).map fun k => k.2.tokenCount).foldl min
    l.tokens.length

/-- All tokens up to the end of the text, or those settled before the first fault. -/
def run (fuel : Nat) (l : Lexer) : List Token × Option Refusal :=
  match fuel with
  | 0 => (l.tokens, some .malformed)
  | fuel + 1 =>
    match l.next with
    | .error r => (l.tokens.take l.settledCount, some r)
    | .ok (some l) => run fuel l
    | .ok none =>
      match (l.unwind (-1)).dropKeyPlace with
      | .error r => (l.tokens, some r)
      | .ok l => (l.tokens ++ [.streamEnd], none)

end Lexer

def tokens (text : List Char) : List Token × Option Refusal :=
  if text.all isAllowed then Lexer.run (text.length + 1) (Lexer.start text)
  else ([], some .malformed)

end FirmwareKit.Yaml
