import FirmwareKit.Config.Lookup
import FirmwareKit.Files.Search
set_option autoImplicit false

/-!
# Programs that check configurations

A check looks up entries of the configuration and asks whether texts are in a format, some of which
are about files. The entries of a configuration are found by key paths, those of a plain mapping by
their names.
-/
namespace FirmwareKit.Schema

/-- Formats that are tested outside of the validator. -/
inductive Format where
  | number
  | file
  | directory
  | fileName
deriving DecidableEq, Repr

namespace Format

def all : List Format := [.number, .file, .directory, .fileName]

def name : Format → String
  | .number => "number"
  | .file => "file"
  | .directory => "dir"
  | .fileName => "file_name"

def ofName? (s : String) : Option Format := all.find? fun f => f.name == s

def isFound (places : List String) (kind : Sought) (text : String) : Run Bool := do
  let found ← Run.find? kind (Search.within places) text
  pure ((found.map fun p => !p.isEmpty).getD false)

def admits (places : List String) (text : String) : Format → Run Bool
  | .number => pure (Value.text text).toInt?.isSome
  | .file => isFound places .file text
  | .directory => isFound places .directory text
  | .fileName => pure (!(Path.fileName (Path.withSlashes text)).isEmpty)

end Format

/-- What is asked of the entries of the whole configuration. A value that was found under a key and
then changed is put back where it was found. -/
inductive Query where
  | item (es : Value.Entries) (key : Value)
  | get (es : Value.Entries) (key : Value)
  | put (es : Value.Entries) (key new : Value)

namespace Query

def Answer : Query → Type
  | .item .. | .get .. => Value
  | .put .. => Value.Entries

def byPaths : (q : Query) → Except Fault q.Answer
  | .item es key => Config.item es key
  | .get es key => Config.get es key .null
  | .put es key new => .ok (Config.put es key new)

def byNames : (q : Query) → Except Fault q.Answer
  | .item es key =>
    match es.get? key with
    | some v => .ok v
    | none => .error (.system (.absentKey key))
  | .get es key => .ok ((es.get? key).getD .null)
  | .put es key new => .ok (es.insert key new)

def answer (keyed : Bool) (q : Query) : Except Fault q.Answer :=
  if keyed then q.byPaths else q.byNames

end Query

inductive Program (α : Type) where
  | protected pure (a : α)
  | fail (f : Fault)
  | test (format : Format) (text : String) (next : Bool → Program α)
  | ask (q : Query) (next : q.Answer → Program α)

namespace Program
variable {α β : Type}

def bind : Program α → (α → Program β) → Program β
  | .pure a, k => k a
  | .fail f, _ => .fail f
  | .test format text next, k => .test format text fun b => (next b).bind k
  | .ask q next, k => .ask q fun a => (next a).bind k

instance : Monad Program where
  pure := .pure
  bind := .bind

def ofExcept : Except Fault α → Program α
  | .ok a => .pure a
  | .error f => .fail f

def system (f : SystemFault) : Program α := .fail (.system f)

def isInFormat (format : Format) (text : String) : Program Bool := .test format text .pure

def item (es : Value.Entries) (key : Value) : Program Value := .ask (.item es key) .pure

def get (es : Value.Entries) (key : Value) : Program Value := .ask (.get es key) .pure

def put (es : Value.Entries) (key new : Value) : Program Value.Entries :=
  .ask (.put es key new) .pure

/-- Files are sought in the search paths; in a keyed configuration entries are found by key paths. -/
def run (places : List String) (keyed : Bool) : Program α → Run α
  | .pure a => Pure.pure a
  | .fail f => throw f
  | .test format text next => do
    let holds ← format.admits places text
    (next holds).run places keyed
  | .ask q next => do
    let a ← Run.ofExcept (q.answer keyed)
    (next a).run places keyed

end Program
end FirmwareKit.Schema
