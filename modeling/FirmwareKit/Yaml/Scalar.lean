import FirmwareKit.Yaml.Cursor
import FirmwareKit.Text.Utf8
set_option autoImplicit false

namespace FirmwareKit.Yaml

/-- One break becomes a space, of several the first vanishes; a break with a character of its own
stays. -/
def fold (first : Char) (others : List Char) : List Char :=
  (if first ≠ '\n' then [first] else if others.isEmpty then [' '] else []) ++ others

def quotedBreaks (fuel : Nat) (c : Cursor) : Except Refusal (List Char × Cursor) :=
  match fuel with
  | 0 => .ok ([], c)
  | fuel + 1 =>
    if c.atSeparator then .error .malformed
    else
      let c := c.skipWhile isBlank
      match c.lineBreak? with
      | none => .ok ([], c)
      | some (x, c) => (quotedBreaks fuel c).map fun r => (x :: r.1, r.2)

def quotedSpaces (c : Cursor) : Except Refusal (List Char × Cursor) :=
  let (blanks, c) := c.takeWhile isBlank
  match c.peek, c.lineBreak? with
  | none, _ => .error .malformed
  | some _, none => .ok (blanks, c)
  | some _, some (first, c) =>
    (quotedBreaks (c.rest.length + 1) c).map fun r => (fold first r.1, r.2)

def escapedChar? : Char → Option Char
  | '0' => some '\x00'
  | 'a' => some '\x07'
  | 'b' => some '\x08'
  | 't' | '\t' => some '\t'
  | 'n' => some '\n'
  | 'v' => some '\x0B'
  | 'f' => some '\x0C'
  | 'r' => some '\r'
  | 'e' => some '\x1B'
  | ' ' => some ' '
  | '"' => some '"'
  | '\\' => some '\\'
  | '/' => some '/'
  | 'N' => some '\u0085'
  | '_' => some '\u00A0'
  | 'L' => some '\u2028'
  | 'P' => some '\u2029'
  | _ => none

def escapeLength? : Char → Option Nat
  | 'x' => some 2
  | 'u' => some 4
  | 'U' => some 8
  | _ => none

def greatestCode : Nat := 0x10FFFF

/-- Why a number is no code of a character; from `2 ^ 31` on it is not even looked at. -/
def codeFault (code : Nat) : SystemFault :=
  if code < 0x80000000 then .badValue "chr() arg not in range(0x110000)"
  else .overflow "Python int too large to convert to C int"

def escape (c : Cursor) : Except Refusal (List Char × Cursor) :=
  match c.peek with
  | none => .error .malformed
  | some x =>
    match escapedChar? x, escapeLength? x with
    | some y, _ => .ok ([y], c.next)
    | none, some n =>
      let digits := c.next.rest.take n
      if digits.length = n then
        match Text.readDigits? 16 digits with
        | some code =>
          if code ≤ greatestCode then .ok ([Char.ofNat code], c.next.skip n)
          else .error (.system (codeFault code))
        | none => .error .malformed
      else .error .malformed
    | none, none =>
      match c.lineBreak? with
      | some (_, c) => quotedBreaks (c.rest.length + 1) c
      | none => .error .malformed

def quotedScalar (double : Bool) (fuel : Nat) (c : Cursor) : Except Refusal (List Char × Cursor) :=
  match fuel with
  | 0 => .error .malformed
  | fuel + 1 => do
    let more (part : List Char) (c : Cursor) : Except Refusal (List Char × Cursor) := do
      let (text, c) ← quotedScalar double fuel c
      pure (part ++ text, c)
    match c.peek with
    | none => .error .malformed
    | some x =>
      if isBlank x || isBreak x then
        let (part, c) ← quotedSpaces c
        more part c
      else if double && x == '\\' then
        let (part, c) ← escape c.next
        more part c
      else if x == (if double then '"' else '\'') then
        if !double && c.peekAt 1 == some '\'' then more ['\''] (c.skip 2)
        else pure ([], c.next)
      else more [x] c.next

def isFlowMark (c : Char) : Bool := [',', '[', ']', '\x7b', '\x7d'].contains c

/-- A colon ends a plain run before a blank, in flow collections also before their marks. -/
def colonEnds (flow : Bool) (next : Option Char) : Bool :=
  isBlankOrBreak next ||
    match next with
    | some y => flow && isFlowMark y
    | none => true

def plainRun (flow : Bool) : List Char → List Char
  | [] => []
  | x :: rest =>
    if isBlank x || isBreak x then []
    else if x == ':' && colonEnds flow rest.head? then []
    else if flow && (isFlowMark x || x == '?') then []
    else x :: plainRun flow rest

/-- Breaks between the lines of a plain scalar; none when a separator follows. -/
def plainBreaks (fuel : Nat) (c : Cursor) : Option (List Char) × Cursor :=
  match fuel with
  | 0 => (some [], c)
  | fuel + 1 =>
    if c.peek = some ' ' then plainBreaks fuel c.next
    else match c.lineBreak? with
      | none => (some [], c)
      | some (x, c) =>
        if c.atSeparator then (none, c)
        else
          let (r, c) := plainBreaks fuel c
          (r.map (x :: ·), c)

def plainSpaces (c : Cursor) : List Char × Bool × Cursor :=
  let (spaces, c) := c.takeWhile (· == ' ')
  match c.lineBreak? with
  | none => (spaces, false, c)
  | some (first, c) =>
    if c.atSeparator then ([], true, c)
    else
      match plainBreaks (c.rest.length + 1) c with
      | (some others, c) => (fold first others, true, c)
      | (none, c) => ([], true, c)

structure PlainText where
  text : List Char
  endedLine : Bool
  cursor : Cursor

/-- A plain scalar whose further lines stand at least at `indent`. -/
def plainScalar (flow : Bool) (indent : Int) (fuel : Nat) (spaces : List Char) (ended : Bool)
    (c : Cursor) : PlainText :=
  match fuel with
  | 0 => ⟨[], ended, c⟩
  | fuel + 1 =>
    let run := if c.peek = some '#' then [] else plainRun flow c.rest
    if run.isEmpty then ⟨[], ended, c⟩
    else
      let (next, endedHere, c) := plainSpaces (c.skip run.length)
      if next.isEmpty || c.peek = some '#' || (!flow && (c.column : Int) < indent) then
        ⟨spaces ++ run, endedHere, c⟩
      else
        let r := plainScalar flow indent fuel next endedHere c
        { r with text := spaces ++ run ++ r.text }

inductive Chomping where
  | strip
  | clip
  | keep
deriving DecidableEq, Repr

def chomping? : Option Char → Option Chomping
  | some '+' => some .keep
  | some '-' => some .strip
  | _ => none

def increment (c : Cursor) : Except Refusal (Option Nat × Cursor) :=
  match c.peek with
  | some x =>
    if x == '0' then .error .malformed
    else if x.isDigit then .ok (some (x.toNat - '0'.toNat), c.next)
    else .ok (none, c)
  | none => .ok (none, c)

def blockSigns (c : Cursor) : Except Refusal (Chomping × Option Nat × Cursor) := do
  let (chomping, n, c) ← match chomping? c.peek with
    | some k => (increment c.next).map fun r => (k, r)
    | none => do
      let (n, c) ← increment c
      match n, chomping? c.peek with
      | some _, some k => pure (k, n, c.next)
      | _, _ => pure (.clip, n, c)
  if isSpaceOrBreak c.peek then pure (chomping, n, c) else .error .malformed

def leadingLines (fuel : Nat) (deepest : Nat) (c : Cursor) : List Char × Nat × Cursor :=
  match fuel with
  | 0 => ([], deepest, c)
  | fuel + 1 =>
    if c.peek = some ' ' then leadingLines fuel (max deepest c.next.column) c.next
    else match c.lineBreak? with
      | some (x, c) =>
        let (xs, d, c) := leadingLines fuel deepest c
        (x :: xs, d, c)
      | none => ([], deepest, c)

def skipIndent (indent : Nat) (fuel : Nat) (c : Cursor) : Cursor :=
  match fuel with
  | 0 => c
  | fuel + 1 =>
    if c.column < indent && c.peek == some ' ' then skipIndent indent fuel c.next else c

def blockBreaks (indent : Nat) (fuel : Nat) (c : Cursor) : List Char × Cursor :=
  match fuel with
  | 0 => ([], c)
  | fuel + 1 =>
    let c := skipIndent indent indent c
    match c.lineBreak? with
    | some (x, c) =>
      let (xs, c) := blockBreaks indent fuel c
      (x :: xs, c)
    | none => ([], c)

def startsBlank (c : Cursor) : Bool :=
  match c.peek with
  | some x => isBlank x
  | none => false

structure BlockText where
  text : List Char
  lastBreak : List Char
  breaks : List Char
  cursor : Cursor

/-- The lines of a block at its indentation. A line that begins with a blank is not folded. -/
def blockLines (folded : Bool) (indent : Nat) (fuel : Nat) (breaks : List Char) (c : Cursor) :
    BlockText :=
  match fuel with
  | 0 => ⟨[], [], breaks, c⟩
  | fuel + 1 =>
    if c.column = indent ∧ c.peek.isSome then
      let blank := startsBlank c
      let (line, c) := c.takeWhile fun x => !isBreak x
      let (ended, c) := match c.lineBreak? with
        | some (x, c) => ([x], c)
        | none => ([], c)
      let (next, c) := blockBreaks indent (c.rest.length + 1) c
      if c.column = indent ∧ c.peek.isSome then
        let joint :=
          if folded && ended == ['\n'] && !blank && !startsBlank c then
            if next.isEmpty then [' '] else []
          else ended
        let r := blockLines folded indent fuel next c
        { r with text := breaks ++ line ++ joint ++ r.text }
      else ⟨breaks ++ line, ended, next, c⟩
    else ⟨[], [], breaks, c⟩

def blockScalar (folded : Bool) (indent : Int) (c : Cursor) :
    Except Refusal (List Char × Cursor) := do
  let (chomping, n, c) ← blockSigns c
  let some c := c.endLine? | .error .malformed
  let least := max (indent + 1) 1
  let fuel := c.rest.length + 1
  let (breaks, depth, c) :=
    match n with
    | none =>
      let (breaks, deepest, c) := leadingLines fuel 0 c
      (breaks, max least.toNat deepest, c)
    | some n =>
      let depth := (least + n - 1).toNat
      let (breaks, c) := blockBreaks depth fuel c
      (breaks, depth, c)
  let r := blockLines folded depth fuel breaks c
  let tail := match chomping with
    | .strip => []
    | .clip => r.lastBreak
    | .keep => r.lastBreak ++ r.breaks
  pure (r.text ++ tail, r.cursor)

end FirmwareKit.Yaml
