import FirmwareKit.SystemFault
set_option autoImplicit false

namespace FirmwareKit.Yaml

/-- A text is refused because it is no YAML, or because a value in it cannot be made. -/
inductive Refusal where
  | malformed
  | system (cause : SystemFault)
deriving Repr

structure Cursor where
  rest : List Char
  index : Nat
  line : Nat
  column : Nat
deriving Repr

def isBreak (c : Char) : Bool :=
  c == '\n' || c == '\u0085' || c == '\u2028' || c == '\u2029'

def isBlank (c : Char) : Bool := c == ' ' || c == '\t'

def isBreakOrEnd : Option Char → Bool
  | none => true
  | some c => isBreak c

def isSpaceOrBreak : Option Char → Bool
  | none => true
  | some c => c == ' ' || isBreak c

def isBlankOrBreak : Option Char → Bool
  | none => true
  | some c => isBlank c || isBreak c

def isAllowed (c : Char) : Bool :=
  let n := c.toNat
  n == 0x09 || n == 0x0A || n == 0x0D || (0x20 ≤ n && n ≤ 0x7E) || n == 0x85
    || (0xA0 ≤ n && n ≤ 0xFFFD) || 0x10000 ≤ n

def isWordChar (c : Char) : Bool := c.isAlphanum || c == '-' || c == '_'

namespace Cursor

def start (text : List Char) : Cursor := ⟨text, 0, 0, 0⟩

def peek (c : Cursor) : Option Char := c.rest.head?

def peekAt (c : Cursor) (n : Nat) : Option Char := c.rest[n]?

/-- A byte order mark takes no column. -/
def next (c : Cursor) : Cursor :=
  match c.rest with
  | [] => c
  | x :: rest =>
    if isBreak x then ⟨rest, c.index + 1, c.line + 1, 0⟩
    else ⟨rest, c.index + 1, c.line, if x = '\uFEFF' then c.column else c.column + 1⟩

def skip (n : Nat) (c : Cursor) : Cursor :=
  match n with
  | 0 => c
  | n + 1 => skip n c.next

def takeWhile (p : Char → Bool) (c : Cursor) : List Char × Cursor :=
  let run := c.rest.takeWhile p
  (run, c.skip run.length)

def skipWhile (p : Char → Bool) (c : Cursor) : Cursor := (c.takeWhile p).2

def skipSpaces (c : Cursor) : Cursor := c.skipWhile (· == ' ')

def lineBreak? (c : Cursor) : Option (Char × Cursor) :=
  match c.peek with
  | some x =>
    if isBreak x then some (if x = '\u0085' then '\n' else x, c.next) else none
  | none => none

def takesLead (lead : List Char) (c : Cursor) : Bool := lead.isPrefixOf c.rest

/-- Three dashes or dots that stand alone separate documents. -/
def atSeparator (c : Cursor) : Bool :=
  (c.takesLead ['-', '-', '-'] || c.takesLead ['.', '.', '.']) && isBlankOrBreak (c.peekAt 3)

def endLine? (c : Cursor) : Option Cursor :=
  let c := c.skipSpaces
  let c := if c.peek = some '#' then c.skipWhile (fun x => !isBreak x) else c
  if isBreakOrEnd c.peek then some c.next else none

end Cursor
end FirmwareKit.Yaml
