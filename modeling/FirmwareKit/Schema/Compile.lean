import FirmwareKit.Schema.Rule
import FirmwareKit.Value.Text
set_option autoImplicit false

/-!
# Reading schemas

The rules of a schema are read from a value, keyword by keyword in a fixed order that is also the
order in which they are tried. A schema that makes no sense is refused with the reason.
-/
namespace FirmwareKit.Schema

def refuse {α : Type} (reason : String) : Reading α := .error (.definition reason)

/-! Escapes in the texts of a schema -/

def escapeLetter? : Char → Option (List Char)
  | '\n' => some []
  | '\\' => some ['\\']
  | '\'' => some ['\'']
  | '"' => some ['"']
  | 'a' => some ['\x07']
  | 'b' => some ['\x08']
  | 'f' => some ['\x0C']
  | 'n' => some ['\n']
  | 'r' => some ['\r']
  | 't' => some ['\t']
  | 'v' => some ['\x0B']
  | _ => none

def codeLength? : Char → Option Nat
  | 'x' => some 2
  | 'u' => some 4
  | 'U' => some 8
  | _ => none

/-- Escapes in a text are resolved; a backslash before anything else stays. -/
def resolveEscapes (fuel : Nat) (cs : List Char) : List Char :=
  match fuel with
  | 0 => cs
  | fuel + 1 =>
    match cs with
    | '\\' :: c :: rest =>
      match escapeLetter? c, codeLength? c with
      | some ds, _ => ds ++ resolveEscapes fuel rest
      | none, some n =>
        match Text.readDigits? 16 (rest.take n) with
        | some code => Char.ofNat code :: resolveEscapes fuel (rest.drop n)
        | none => '\\' :: c :: resolveEscapes fuel rest
      | none, none =>
        let digits := (c :: rest.take 2).takeWhile fun d => '0' ≤ d && d ≤ '7'
        match digits with
        | [] => '\\' :: resolveEscapes fuel (c :: rest)
        | ds =>
          Char.ofNat ((Text.readDigits? 8 ds).getD 0)
            :: resolveEscapes fuel ((c :: rest).drop ds.length)
    | c :: rest => c :: resolveEscapes fuel rest
    | [] => []

def resolved (s : String) : String :=
  if s.toList.contains '\\' then String.ofList (resolveEscapes (s.length + 1) s.toList) else s

/-! Keywords -/

def asList (v : Value) : List Value :=
  match v with
  | .list xs => xs
  | v => [v]

def readType (v : Value) : Reading Rule := do
  let types ← (asList v).mapM fun t =>
    match t with
    | .text s =>
      match TypeName.ofText? s with
      | some t => pure t
      | none => refuse s!"Unknown type: {Text.quote s}"
    | .list _ | .map _ | .set _ | .buffer _ => refuse s!"unhashable type: '{t.typeName}'"
    | t => refuse s!"Unknown type: {t.quoted}"
  pure (.type types)

def isNumber (v : Value) : Bool := v.toNumber?.isSome

def readSize (keyword : String) (measure : Measure) (side : Side) (v : Value) : Reading Rule :=
  if isNumber v then .ok (.size measure side v) else refuse s!"{keyword} must be a number"

def readLimit (reason : String) (side : Side) (strict : Bool) (v : Value) : Reading Rule :=
  if isNumber v then .ok (.magnitude ⟨side, strict, v⟩) else refuse reason

def isStrict (es : Value.Entries) (keyword : String) : Bool :=
  ((es.getText? keyword).map Value.isTruthy).getD false

def readEnum (v : Value) : Reading Rule :=
  match v with
  | .list xs | .tuple xs => .ok (.enum xs)
  | _ => refuse "enum must be an array"

def readConst (v : Value) : Rule :=
  match v with
  | .text s => .const (.text (resolved s))
  | v => .const v

def readPattern (v : Value) : Reading Rule :=
  match v with
  | .text s =>
    match Pattern.parse? s with
    | some p => .ok (.pattern s p)
    | none => .error (.system (.foreign "error" [.text "malformed pattern"]))
  | v => .error (.system (.noAttribute v "replace"))

/-- Keywords and formats that are not read here end the reading. -/
def beyond {α : Type} (what : Value) : Reading α :=
  .error (.system (.foreign "NotImplementedError" [what]))

def readFormat (v : Value) : Reading Rule :=
  match v with
  | .text s => (Format.ofName? s).elim (beyond v) fun f => .ok (.format f)
  | v => beyond v

def propertyNames (es : Value.Entries) : List Value :=
  match es.getText? "properties" with
  | some (.map ps) => ps.map Prod.fst
  | _ => []

def readRequired (subject : String) (es : Value.Entries) (v : Value) : Reading Rule :=
  match v with
  | .list xs | .tuple xs =>
    match xs.find? fun x => !x.isKey with
    | some x => refuse s!"unhashable type: '{x.typeName}'"
    | none =>
      let distinct := (Value.Entries.ofPairs (xs.map fun x => (x, .null))).length
      if distinct ≠ xs.length then refuse "required must contain unique elements"
      else
        let closed := ((es.getText? "additionalProperties").map fun a => !a.isTruthy).getD false
        let names := propertyNames es
        let impossible := xs.filter fun x => !names.any (·.sameKey x)
        if closed && !impossible.isEmpty then
          refuse s!"{subject}: items {(Value.list impossible).quoted} required but not allowed"
        else .ok (.required xs)
  | _ => refuse "required must be an array"

def notIterable (v : Value) : String := s!"'{v.typeName}' object is not iterable"

def noContainer (v : Value) : String := s!"argument of type '{v.typeName}' is not iterable"

def variablePart (name : String) : String := String.ofList (name.toList.filter Char.isAlphanum)

def keywords : List String := [
  "type", "enum", "allOf", "anyOf", "oneOf", "not", "minLength", "maxLength", "pattern", "format",
  "minimum", "maximum", "multipleOf", "minItems", "maxItems", "uniqueItems", "items",
  "minProperties", "maxProperties", "required", "properties", "additionalProperties",
  "exclusiveMinimum", "exclusiveMaximum", "const"]

def otherKeywords : List String := [
  "$schema", "$id", "$ref", "patternProperties", "dependencies", "propertyNames", "contains", "if"]

def extent : Value → Nat
  | .list xs | .tuple xs | .set xs => extents xs + 1
  | .map es => entryExtents es + 1
  | _ => 1
where
  extents : List Value → Nat
  | [] => 0
  | v :: rest => extent v + extents rest
  entryExtents : List (Value × Value) → Nat
  | [] => 0
  | (k, v) :: rest => extent k + extent v + entryExtents rest

/-- The schemas of a list; a text counts as the list of its characters, a mapping as that of its
names. -/
def alternatives (read : Value → Reading (List Rule)) (v : Value) : Reading (List (List Rule)) :=
  match v with
  | .list xs | .tuple xs | .set xs => xs.mapM read
  | .text s => s.toList.mapM fun c => read (.text (String.ofList [c]))
  | .map es => es.mapM fun e => read e.1
  | v => refuse (notIterable v)

def readNot (read : Value → Reading (List Rule)) (v : Value) : Reading (List Rule) :=
  match v with
  | .bool true => .ok [.anything]
  | .bool false => .ok []
  | v => if v.isTruthy then (read v).map fun s => [.not s] else .ok [.nothing]

def defaultOf (v : Value) : Option Value :=
  match v with
  | .map es => Value.Entries.getText? es "default"
  | _ => none

def readItems (read : String → Value → Reading (List Rule)) (subject : String) (v : Value) :
    Reading (List Rule) :=
  match v with
  | .bool true => .ok []
  | .bool false => .ok [.noItems]
  | .list xs => do
    let schemas ← xs.zipIdx.mapM fun x =>
      (read s!"{subject}__{x.2}" x.1).map fun s => (s, defaultOf x.1)
    pure [.itemsAt schemas]
  | v => if v.isTruthy then (read (subject ++ "_item") v).map fun s => [.items s] else .ok []

def readProperty (read : String → Value → Reading (List Rule)) (subject : String)
    (e : Value × Value) : Reading (String × List Rule × Option Value) :=
  match e.1 with
  | .text name =>
    match e.2 with
    | .map _ | .bool _ =>
      (read (subject ++ "__" ++ variablePart name) e.2).map fun s =>
        (resolved name, s, defaultOf e.2)
    | _ => refuse s!"{subject}[{variablePart name}] must be object"
  | k => refuse s!"expected string or bytes-like object, got '{k.typeName}'"

def readProperties (read : String → Value → Reading (List Rule)) (subject : String) (v : Value) :
    Reading (List Rule) :=
  match v with
  | .map es => (es.mapM (readProperty read subject)).map fun ps => [.properties ps]
  | v => .error (.system (.noAttribute v "items"))

def knownNames (es : Value.Entries) : List String :=
  (propertyNames es).filterMap fun
    | .text s => some s
    | _ => none

def readOthers (read : Value → Reading (List Rule)) (es : Value.Entries) (v : Value) :
    Reading (List Rule) :=
  match v with
  | .bool true | .map [] => .ok []
  | v =>
    if v.isTruthy then (read v).map fun s => [.others (knownNames es) s]
    else .ok [.noOthers ((knownNames es).map resolved)]

def one (r : Reading Rule) : Reading (List Rule) := r.map fun r => [r]

def readKeyword (read : String → Value → Reading (List Rule)) (subject : String)
    (es : Value.Entries) (keyword : String) (v : Value) : Reading (List Rule) :=
  let here := read subject
  let bare (kind : String) := s!"{keyword} must be {kind}"
  match keyword with
  | "type" => one (readType v)
  | "enum" => one (readEnum v)
  | "allOf" => (alternatives here v).map fun ss => [.allOf ss]
  | "anyOf" => (alternatives here v).map fun ss => [.choice .anyOf ss]
  | "oneOf" => (alternatives here v).map fun ss => [.choice .oneOf ss]
  | "not" => readNot here v
  | "minLength" => one (readSize keyword .characters .least v)
  | "maxLength" => one (readSize keyword .characters .most v)
  | "pattern" => one (readPattern v)
  | "format" => one (readFormat v)
  | "minimum" => one (readLimit (bare "a number") .least (isStrict es "exclusiveMinimum") v)
  | "maximum" => one (readLimit (bare "a number") .most (isStrict es "exclusiveMaximum") v)
  | "multipleOf" => if isNumber v then .ok [.multipleOf v] else refuse (bare "a number")
  | "minItems" => one (readSize keyword .items .least v)
  | "maxItems" => one (readSize keyword .items .most v)
  | "uniqueItems" => .ok (if v.isTruthy then [.unique] else [])
  | "items" => readItems read subject v
  | "minProperties" => one (readSize keyword .entries .least v)
  | "maxProperties" => one (readSize keyword .entries .most v)
  | "required" => one (readRequired subject es v)
  | "properties" => readProperties read subject v
  | "additionalProperties" => readOthers (read (subject ++ "_value")) es v
  | "exclusiveMinimum" =>
    one (readLimit (bare "an integer, a float or a decimal") .least true v)
  | "exclusiveMaximum" =>
    one (readLimit (bare "an integer, a float or a decimal") .most true v)
  | "const" => .ok [readConst v]
  | _ => .ok []

/-- Keywords whose rules begin with what the keyword is given. -/
def plainKeywords : List String := ["type", "enum", "allOf", "not", "uniqueItems", "items", "const"]

def mentions (v : Value) (name : String) : Bool :=
  match v with
  | .text s => (s.splitOn name).length != 1
  | .list xs | .tuple xs | .set xs => xs.any (·.eq (.text name))
  | _ => false

def noLookup (v : Value) : String :=
  match v with
  | .text _ => "string indices must be integers, not 'str'"
  | .set _ => "'set' object is not subscriptable"
  | v => s!"{v.typeName} indices must be integers or slices, not str"

/-- A schema that is a sequence: it asks for nothing, unless a keyword occurs in it. -/
def readSequence (v : Value) : Reading (List Rule) :=
  match otherKeywords.find? (mentions v), keywords.find? (mentions v) with
  | some k, _ => beyond (.text k)
  | none, none => .ok [.inert v]
  | none, some k =>
    if plainKeywords.contains k then refuse (noLookup v)
    else .error (.system (.badValue "a schema has names and values"))

def readWithin (fuel : Nat) (subject : String) (v : Value) : Reading (List Rule) :=
  match fuel with
  | 0 => .ok []
  | fuel + 1 =>
    match v with
    | .bool b => .ok (if b then [] else [.never])
    | .map es =>
      match otherKeywords.find? fun k => (Value.Entries.getText? es k).isSome with
      | some k => beyond (.text k)
      | none => do
        let parts ← keywords.mapM fun k =>
          match Value.Entries.getText? es k with
          | some w => readKeyword (readWithin fuel) subject es k w
          | none => pure []
        pure parts.flatten
    | .list _ | .tuple _ | .set _ | .text _ => readSequence v
    | .bytes _ | .buffer _ => refuse "a bytes-like object is required, not 'str'"
    | v => refuse (noContainer v)

def compile (v : Value) : Reading (List Rule) := readWithin (extent v + 1) "data" v

end FirmwareKit.Schema
