import FirmwareKit.Yaml.Kind
import FirmwareKit.Yaml.Lexer
set_option autoImplicit false

namespace FirmwareKit.Yaml

inductive Node where
  | scalar (kind : Kind) (text : String)
  | sequence (kind : Kind) (items : List Node)
  | mapping (kind : Kind) (entries : List (Node × Node))
  /-- A collection that this node is inside of. -/
  | enclosing (kind : Kind) (isMapping : Bool) (anchor : String)
deriving Repr

namespace Node

def empty : Node := .scalar .null ""

structure Context where
  handles : List (String × String)
  stop : Refusal

/-- The tokens to come, and what the aliases stand for that may be used now. -/
structure Input where
  tokens : List Token
  anchors : List (String × Node)

def Input.peek (i : Input) : Option Token := i.tokens.head?

def Input.next (i : Input) : Input := { i with tokens := i.tokens.tail }

def Input.anchored (i : Input) (name : Option String) (n : Node) : Input :=
  match name with
  | some a => { i with anchors := (a, n) :: i.anchors }
  | none => i

/-- Inside a collection its anchor may be used already. -/
def Input.entered (i : Input) (name : Option String) (kind : Kind) (isMapping : Bool) : Input :=
  i.anchored name (.enclosing kind isMapping (name.getD ""))

def defaultHandles : List (String × String) := [("!", "!"), ("!!", Kind.standardLead)]

structure Properties where
  anchor : Option String
  tag : Option (Option String × String)

/-- An anchor and a tag in either order, each at most once. -/
def properties (i : Input) : Properties × Input :=
  match i.tokens with
  | .anchor a :: .tag h s :: _ => (⟨some a, some (h, s)⟩, i.next.next)
  | .tag h s :: .anchor a :: _ => (⟨some a, some (h, s)⟩, i.next.next)
  | .anchor a :: _ => (⟨some a, none⟩, i.next)
  | .tag h s :: _ => (⟨none, some (h, s)⟩, i.next)
  | _ => (⟨none, none⟩, i)

/-- The full tag. A lone mark, written out or not, stands for no tag. -/
def fullTag (ctx : Context) : Option (Option String × String) → Except Refusal (Option String)
  | none => .ok none
  | some (none, suffix) => .ok (some suffix)
  | some (some handle, suffix) =>
    match ctx.handles.lookup handle with
    | some lead => .ok (some (lead ++ suffix))
    | none => .error .malformed

def scalarKind (tag : Option String) (plain : Bool) (text : String) : Kind :=
  match tag with
  | none => if plain then Kind.ofPlain text else .text
  | some "!" => Kind.ofPlain text
  | some t => Kind.ofTag t

def collectionKind (usual : Kind) (tag : Option String) : Kind :=
  match tag with
  | none | some "!" => usual
  | some t => Kind.ofTag t

def isFree (i : Input) (anchor : Option String) : Bool :=
  match anchor with
  | some a => (i.anchors.lookup a).isNone
  | none => true

def expect (ctx : Context) (t : Token) (i : Input) : Except Refusal Input :=
  match i.peek with
  | none => .error ctx.stop
  | some u => if u = t then .ok i.next else .error .malformed

def entryMark (ctx : Context) (first : Bool) (i : Input) : Except Refusal Input :=
  if first then .ok i else expect ctx .flowEntry i

mutual
/-- A node in a block or a flow collection; after a mark of a mapping, a sequence may follow that
is not indented. -/
def read (fuel : Nat) (ctx : Context) (inBlock indentless : Bool) (i : Input) :
    Except Refusal (Node × Input) :=
  match fuel with
  | 0 => .error .malformed
  | fuel + 1 =>
    match i.peek with
    | none => .error ctx.stop
    | some (.alias a) =>
      match i.anchors.lookup a with
      | some n => .ok (n, i.next)
      | none => .error .malformed
    | some _ => do
      let (p, i) := properties i
      -- a second property is looked for before the first is made use of
      if (p.anchor.isNone || p.tag.isNone) && i.peek.isNone then .error ctx.stop
      else
        let tag ← fullTag ctx p.tag
        readContent fuel ctx inBlock indentless p tag i

def readContent (fuel : Nat) (ctx : Context) (inBlock indentless : Bool) (p : Properties)
    (tag : Option String) (i : Input) : Except Refusal (Node × Input) :=
  match fuel with
  | 0 => .error .malformed
  | fuel + 1 =>
    let finish (n : Node) (i : Input) : Except Refusal (Node × Input) :=
      .ok (n, i.anchored p.anchor n)
    let sequence (contents : Input → Except Refusal (List Node × Input)) :
        Except Refusal (Node × Input) := do
      let kind := collectionKind .sequence tag
      let (items, i) ← contents (i.entered p.anchor kind false)
      finish (.sequence kind items) i
    let mapping (contents : Input → Except Refusal (List (Node × Node) × Input)) :
        Except Refusal (Node × Input) := do
      let kind := collectionKind .mapping tag
      let (entries, i) ← contents (i.entered p.anchor kind true)
      finish (.mapping kind entries) i
    match i.peek with
    | none => .error ctx.stop
    | some t =>
      if !isFree i p.anchor then .error .malformed
      else match t with
      | .blockEntry =>
        if indentless then sequence fun i => readIndentless fuel ctx i else missing p tag i
      | .scalar text plain => finish (.scalar (scalarKind tag plain text) text) i.next
      | .flowSequenceStart => sequence fun i => readFlowSequence fuel ctx true i.next
      | .flowMappingStart => mapping fun i => readFlowMapping fuel ctx true i.next
      | .blockSequenceStart =>
        if inBlock then sequence fun i => readBlockSequence fuel ctx i.next else missing p tag i
      | .blockMappingStart =>
        if inBlock then mapping fun i => readBlockMapping fuel ctx i.next else missing p tag i
      | _ => missing p tag i

/-- A node of which only an anchor or a tag is written. -/
def missing (p : Properties) (tag : Option String) (i : Input) : Except Refusal (Node × Input) :=
  if p.anchor.isNone && p.tag.isNone then .error .malformed
  else
    let kind := match tag with
      | none | some "!" => Kind.null
      | some t => Kind.ofTag t
    let n : Node := .scalar kind ""
    .ok (n, i.anchored p.anchor n)

def readUnless (fuel : Nat) (ctx : Context) (inBlock indentless : Bool) (ends : List Token)
    (i : Input) : Except Refusal (Node × Input) :=
  match fuel with
  | 0 => .error .malformed
  | fuel + 1 =>
    match i.peek with
    | none => .error ctx.stop
    | some t => if ends.contains t then .ok (empty, i) else read fuel ctx inBlock indentless i

def readBlockSequence (fuel : Nat) (ctx : Context) (i : Input) :
    Except Refusal (List Node × Input) :=
  match fuel with
  | 0 => .error .malformed
  | fuel + 1 =>
    if i.peek = some .blockEntry then do
      let (n, i) ← readUnless fuel ctx true false [.blockEntry, .blockEnd] i.next
      let (rest, i) ← readBlockSequence fuel ctx i
      .ok (n :: rest, i)
    else do
      let i ← expect ctx .blockEnd i
      .ok ([], i)

def readIndentless (fuel : Nat) (ctx : Context) (i : Input) : Except Refusal (List Node × Input) :=
  match fuel with
  | 0 => .error .malformed
  | fuel + 1 =>
    match i.peek with
    | none => .error ctx.stop
    | some .blockEntry => do
      let (n, i) ← readUnless fuel ctx true false [.blockEntry, .key, .value, .blockEnd] i.next
      let (rest, i) ← readIndentless fuel ctx i
      .ok (n :: rest, i)
    | some _ => .ok ([], i)

def readBlockMapping (fuel : Nat) (ctx : Context) (i : Input) :
    Except Refusal (List (Node × Node) × Input) :=
  match fuel with
  | 0 => .error .malformed
  | fuel + 1 =>
    if i.peek = some .key then do
      let (k, i) ← readUnless fuel ctx true true [.key, .value, .blockEnd] i.next
      let (v, i) ← readValue fuel ctx true [.key, .value, .blockEnd] i
      let (rest, i) ← readBlockMapping fuel ctx i
      .ok ((k, v) :: rest, i)
    else do
      let i ← expect ctx .blockEnd i
      .ok ([], i)

/-- The value of an entry; without a value mark it is empty. -/
def readValue (fuel : Nat) (ctx : Context) (inBlock : Bool) (ends : List Token) (i : Input) :
    Except Refusal (Node × Input) :=
  match fuel with
  | 0 => .error .malformed
  | fuel + 1 =>
    match i.peek with
    | none => .error ctx.stop
    | some .value => readUnless fuel ctx inBlock inBlock ends i.next
    | some _ => .ok (empty, i)

def readFlowSequence (fuel : Nat) (ctx : Context) (first : Bool) (i : Input) :
    Except Refusal (List Node × Input) :=
  match fuel with
  | 0 => .error .malformed
  | fuel + 1 =>
    if i.peek = some .flowSequenceEnd then .ok ([], i.next)
    else do
      let i ← entryMark ctx first i
      match i.peek with
      | none => .error ctx.stop
      | some .flowSequenceEnd => .ok ([], i.next)
      | some .key => do
        let ends : List Token := [.flowEntry, .flowSequenceEnd]
        let (k, i) ← readUnless fuel ctx false false (.value :: ends) i.next
        let (v, i) ← readValue fuel ctx false ends i
        let (rest, i) ← readFlowSequence fuel ctx false i
        .ok (.mapping .mapping [(k, v)] :: rest, i)
      | some _ => do
        let (n, i) ← read fuel ctx false false i
        let (rest, i) ← readFlowSequence fuel ctx false i
        .ok (n :: rest, i)

def readFlowMapping (fuel : Nat) (ctx : Context) (first : Bool) (i : Input) :
    Except Refusal (List (Node × Node) × Input) :=
  match fuel with
  | 0 => .error .malformed
  | fuel + 1 =>
    if i.peek = some .flowMappingEnd then .ok ([], i.next)
    else do
      let i ← entryMark ctx first i
      let ends : List Token := [.flowEntry, .flowMappingEnd]
      match i.peek with
      | none => .error ctx.stop
      | some .flowMappingEnd => .ok ([], i.next)
      | some .key => do
        let (k, i) ← readUnless fuel ctx false false (.value :: ends) i.next
        let (v, i) ← readValue fuel ctx false ends i
        let (rest, i) ← readFlowMapping fuel ctx false i
        .ok ((k, v) :: rest, i)
      | some _ => do
        let (k, i) ← read fuel ctx false false i
        let (rest, i) ← readFlowMapping fuel ctx false i
        .ok ((k, empty) :: rest, i)
end

end Node

structure Document where
  root : Node
  anchors : List (String × Node)

namespace Node

structure Directives where
  versioned : Bool
  handles : List (String × String)

/-- The version is stated once and is 1, and no handle is given twice. -/
def directives (d : Directives) : List Token → Except Refusal (Directives × List Token)
  | .directive (.version major _) :: rest =>
    if d.versioned || major != 1 then .error .malformed
    else directives { d with versioned := true } rest
  | .directive (.tagHandle handle lead) :: rest =>
    if (d.handles.lookup handle).isSome then .error .malformed
    else directives { d with handles := (handle, lead) :: d.handles } rest
  | .directive .other :: rest => directives d rest
  | ts => .ok (d, ts)

def dropEnds (ts : List Token) : List Token := ts.dropWhile (· = .documentEnd)

def fuelFor (ts : List Token) : Nat := 4 * ts.length + 10

def isDocumentEdge : Token → Bool
  | .directive _ | .documentStart | .documentEnd | .streamEnd => true
  | _ => false

def finishStream (ctx : Context) (ts : List Token) : Except Refusal Unit :=
  match dropEnds ts with
  | [] => .error ctx.stop
  | .streamEnd :: _ => .ok ()
  | _ => .error .malformed

def wholeDocument (ctx : Context) (ts : List Token) : Except Refusal (Option Document) := do
  let (n, i) ← read (fuelFor ts) ctx true false ⟨ts, []⟩
  finishStream ctx i.tokens
  .ok (some ⟨n, i.anchors⟩)

/-- A document behind its directives. Without content it is empty. -/
def startedDocument (ctx : Context) (ts : List Token) : Except Refusal (Option Document) :=
  match ts with
  | [] | [.documentStart] => .error ctx.stop
  | .documentStart :: t :: rest =>
    if isDocumentEdge t then (finishStream ctx (t :: rest)).map fun _ => some ⟨empty, []⟩
    else wholeDocument ctx (t :: rest)
  | _ => .error .malformed

def explicitDocument (ts : List Token) (stop : Refusal) : Except Refusal (Option Document) :=
  match dropEnds ts with
  | [] => .error stop
  | .streamEnd :: _ => .ok none
  | ts => do
    let (d, ts) ← directives ⟨false, []⟩ ts
    startedDocument ⟨d.handles ++ defaultHandles, stop⟩ ts

def document (ts : List Token) (stop : Refusal) : Except Refusal (Option Document) :=
  match ts with
  | [] => .error stop
  | .directive _ :: _ | .documentStart :: _ | .streamEnd :: _ => explicitDocument ts stop
  | ts => wholeDocument ⟨defaultHandles, stop⟩ ts

def ofText (text : List Char) : Except Refusal (Option Document) :=
  document (tokens text).1 ((tokens text).2.getD .malformed)

end Node
end FirmwareKit.Yaml
