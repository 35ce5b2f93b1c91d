import FirmwareKit.Yaml.Binary
import FirmwareKit.Yaml.Node
import FirmwareKit.Numeral.Integer
set_option autoImplicit false

/-!
# Values of YAML documents

A document's value is made level by level: scalars as soon as they are met, the contents of
collections after all that stands above them. Entries merged into a mapping come before its own,
which override them. A collection may stand inside of itself.
-/
namespace FirmwareKit.Yaml

def readNumber (base : Nat) (cs : List Char) : Except Refusal Int :=
  match Numeral.readInteger base cs with
  | .ok n => .ok n
  | .error r => .error (.system (r.toFault base cs))

def readFloat (cs : List Char) : Except Refusal Binary64 :=
  let s := String.ofList cs
  match Binary64.parse? s with
  | some x => .ok x
  | none => .error (.system (.malformedFloat s))

def emptyNumber : Refusal := .system (.indexOutOfRange "string index out of range")

def unsigned (text : String) : Except Refusal (Bool × List Char) :=
  match text.toList.filter (· ≠ '_') with
  | [] => .error emptyNumber
  | '-' :: rest => .ok (true, rest)
  | '+' :: rest => .ok (false, rest)
  | cs => .ok (false, cs)

def integerMagnitude (cs : List Char) : Except Refusal Int :=
  match cs with
  | [] => .error emptyNumber
  | ['0'] => .ok 0
  | '0' :: 'b' :: ds => readNumber 2 ds
  | '0' :: 'x' :: ds => readNumber 16 ds
  | '0' :: _ => readNumber 8 cs
  | _ =>
    if cs.contains ':' then do
      let parts ← (Text.splitOnChar ':' cs).mapM (readNumber 10)
      pure (parts.foldl (fun n d => n * 60 + d) 0)
    else readNumber 10 cs

def integerValue (text : String) : Except Refusal Int := do
  let (negative, cs) ← unsigned text
  let n ← integerMagnitude cs
  pure (if negative then -n else n)

def floatOf (n : Int) : Except Refusal Binary64 :=
  match Binary64.ofInt n with
  | .infinity _ => .error (.system (.overflow "int too large to convert to float"))
  | x => .ok x

/-- The parts count from the last, each in a unit of its own; each product and sum is rounded. -/
def baseSixtyFrom (unit : Int) (sum : Binary64) : List Binary64 → Except Refusal Binary64
  | [] => .ok sum
  | x :: rest => do
    let u ← floatOf unit
    baseSixtyFrom (unit * 60) (sum.add (x.mul u)) rest

def baseSixty (parts : List Binary64) : Except Refusal Binary64 :=
  baseSixtyFrom 1 Binary64.zero parts.reverse

def floatMagnitude (cs : List Char) : Except Refusal Binary64 :=
  let cs := cs.map Char.toLower
  if cs = ['.', 'i', 'n', 'f'] then .ok (.infinity false)
  else if cs = ['.', 'n', 'a', 'n'] then .ok .nan
  else if cs.contains ':' then do
    let parts ← (Text.splitOnChar ':' cs).mapM readFloat
    baseSixty parts
  else readFloat cs

def floatValue (text : String) : Except Refusal Binary64 := do
  let (negative, cs) ← unsigned text
  let x ← floatMagnitude cs
  pure (if negative then x.neg else x)

def boolValue (text : String) : Except Refusal Bool :=
  let word := String.ofList (text.toList.map Char.toLower)
  if ["yes", "true", "on"].contains word then .ok true
  else if ["no", "false", "off"].contains word then .ok false
  else .error (.system (.absentKey (.text word)))

def scalarValue (kind : Kind) (text : String) : Except Refusal Value :=
  match kind with
  | .null => .ok .null
  | .bool => (boolValue text).map .bool
  | .int => (integerValue text).map .int
  | .float => (floatValue text).map .float
  | .text => .ok (.text text)
  | _ => .error .malformed

def momentValue (text : String) : Except Refusal Moment :=
  match Timestamp.ofText? (Kind.withoutLastBreak text.toList) with
  | none => .error (.system (.noAttribute .null "groupdict"))
  | some m =>
    match Timestamp.fault? m with
    | some cause => .error (.system (.badValue cause))
    | none => .ok m

def binaryValue (text : String) : Except Refusal Value :=
  match Binary.bytes? text with
  | some data => .ok (.bytes data)
  | none => .error .malformed

namespace Node

def kind : Node → Kind
  | .scalar k _ | .sequence k _ | .mapping k _ | .enclosing k .. => k

def withKind (k : Kind) : Node → Node
  | .scalar _ text => .scalar k text
  | .sequence _ items => .sequence k items
  | .mapping _ es => .mapping k es
  | .enclosing _ isMapping anchor => .enclosing k isMapping anchor

mutual
/-- The text of a scalar; that of a mapping is the one of its default value. -/
def text? : Node → Option String
  | .scalar _ text => some text
  | .mapping _ es => defaultText? es
  | .sequence .. | .enclosing .. => none

def defaultText? : List (Node × Node) → Option String
  | [] => none
  | (k, v) :: rest => if k.kind = .default then v.text? else defaultText? rest
end

def make (n : Node) : Except Refusal Value :=
  match n.text? with
  | none => .error .malformed
  | some text =>
    match n, n.kind with
    | .scalar .., .timestamp => (momentValue text).map .moment
    | _, .timestamp =>
      .error (.system (.wrongType "expected string or bytes-like object, got 'list'"))
    | _, .binary => binaryValue text
    | _, k => scalarValue k text

def isMerge (n : Node) : Bool := n.kind = .merge

/-- As a key, the mark of a default value is text. -/
def asKey (n : Node) : Node := if n.kind = .default then n.withKind .text else n

mutual
def splitMerged : List (Node × Node) → Except Refusal (List (Node × Node) × List (Node × Node))
  | [] => .ok ([], [])
  | (k, v) :: rest =>
    if k.isMerge then do
      let first ← merged v
      let (more, own) ← splitMerged rest
      .ok (first ++ more, own)
    else do
      let (more, own) ← splitMerged rest
      .ok (more, (k.asKey, v) :: own)

/-- The entries a merge key's value brings: of several mappings, the last come first. -/
def merged : Node → Except Refusal (List (Node × Node))
  | .mapping _ es => (splitMerged es).map fun p => p.1 ++ p.2
  | .sequence _ items => (mergedItems items).map fun ms => ms.reverse.flatten
  -- what encloses a mapping has its entries already
  | .enclosing _ true _ => .ok []
  | .enclosing _ false _ | .scalar .. => .error .malformed

def mergedItems : List Node → Except Refusal (List (List (Node × Node)))
  | [] => .ok []
  | .mapping _ es :: rest => do
    let first ← (splitMerged es).map fun p => p.1 ++ p.2
    let more ← mergedItems rest
    .ok (first :: more)
  | .enclosing _ true _ :: rest => mergedItems rest
  | _ :: _ => .error .malformed
end

def allEntries (es : List (Node × Node)) : Except Refusal (List (Node × Node)) :=
  (splitMerged es).map fun p => p.1 ++ p.2

def meet (n : Node) : Except Refusal (List Node) :=
  if n.kind.isDeferred then .ok [n] else n.make.map fun _ => []

/-- A key has to be made at once. -/
def meetEntry (e : Node × Node) : Except Refusal (List Node) := do
  let _ ← meet e.1
  if e.1.kind.isDeferred then .error .malformed
  else meet e.2

def meetPair : Node → Except Refusal (List Node)
  | .mapping _ [(k, v)] => do
    let first ← meet k
    let second ← meet v
    .ok (first ++ second)
  | _ => .error .malformed

def descend (n : Node) : Except Refusal (List Node) :=
  match n with
  | .sequence .sequence items => (items.mapM meet).map List.flatten
  | .sequence .pairs items => (items.mapM meetPair).map List.flatten
  | .mapping .mapping es | .mapping .set es => do
    let es ← allEntries es
    (es.mapM meetEntry).map List.flatten
  | .enclosing k isMapping _ => if k.hasEntries = isMapping then .ok [] else .error .malformed
  | _ => .error .malformed

def checkLevels (fuel : Nat) (level : List Node) : Except Refusal Unit :=
  match fuel with
  | 0 => .ok ()
  | fuel + 1 =>
    if level.isEmpty then .ok ()
    else do
      let next ← (level.mapM descend).map List.flatten
      checkLevels fuel next

def pairValue (value : Node → Except Refusal Value) : Node → Except Refusal Value
  | .mapping _ [(k, v)] => do
    let first ← value k
    let second ← value v
    .ok (.tuple [first, second])
  | _ => .error .malformed

def entryValue (value : Node → Except Refusal Value) (e : Node × Node) :
    Except Refusal (Value × Value) := do
  let k ← value e.1
  let v ← value e.2
  .ok (k, v)

def entriesWith (value : Node → Except Refusal Value) (es : List (Node × Node)) :
    Except Refusal Value.Entries := do
  let es ← allEntries es
  let pairs ← es.mapM (entryValue value)
  .ok (Value.Entries.ofPairs pairs)

/-- The value of a node of at most so many levels, where collections that enclose it have these values. -/
def valueWithin (enclosing : String → Bool → Value) (fuel : Nat) (n : Node) :
    Except Refusal Value :=
  match fuel with
  | 0 => .error .malformed
  | fuel + 1 =>
    let inner := valueWithin enclosing fuel
    match n, n.kind with
    | .sequence _ items, .sequence => (items.mapM inner).map .list
    | .sequence _ items, .pairs => (items.mapM (pairValue inner)).map .list
    | .mapping _ es, .mapping => (entriesWith inner es).map .map
    | .mapping _ es, .set => (entriesWith inner es).map fun es => .set (es.map Prod.fst)
    | n, k =>
      if k.isDeferred then
        match n with
        | .enclosing _ isMapping anchor => .ok (enclosing anchor isMapping)
        | _ => .error .malformed
      else n.make

end Node

/-- The value of an anchored collection of a document, in which it is repeated so many times. -/
def Document.repeated (d : Document) (levels : Nat) : Nat → String → Bool → Value
  | 0, _, isMapping => if isMapping then .map [] else .list []
  | times + 1, anchor, isMapping =>
    match (d.anchors.lookup anchor).map (Node.valueWithin (d.repeated levels times) levels) with
    | some (.ok v) => v
    | _ => if isMapping then .map [] else .list []

/-- A collection inside of itself goes on without an end; no deeper is a configuration looked into. -/
def greatestRepetition : Nat := 6

/-- The value of a text; a text without document has none. -/
def load (text : String) : Except Refusal Value := do
  let cs := text.toList
  match ← Node.ofText cs with
  | none => .ok .null
  | some d =>
    let levels := cs.length + 2
    let waiting ← d.root.meet
    Node.checkLevels levels waiting
    d.root.valueWithin (d.repeated levels greatestRepetition) levels

end FirmwareKit.Yaml
