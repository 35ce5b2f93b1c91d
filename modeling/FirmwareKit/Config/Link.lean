import FirmwareKit.Config.Loading
import FirmwareKit.Log.Reported
import FirmwareKit.Schema.Validate
set_option autoImplicit false

/-!
# Link configurations

A link configuration holds what a linker script needs: the memory model and layout, the bounds of
the ROM and the exported constants. Numbers may be written as texts.
-/
namespace FirmwareKit

structure Config where
  entries : Value.Entries
  directory : String
  name : String
  searchPaths : List String

structure LinkConfig where
  layout : Layout
  romStart : Int
  romLength : Int
  constants : List (Value × Int)
deriving Repr

namespace Config

def ofEntries (directory : String) (entries : Value.Entries) : Config :=
  ⟨entries, directory, "", []⟩

end Config

namespace LinkConfig

def entry (key : String) (v : Value) : Value × Value := (.text key, v)

def object (properties : List (Value × Value)) (more : List (Value × Value)) : Value :=
  .map ([entry "type" (.text "object")] ++ more ++ [entry "properties" (.map properties)])

def names (ss : List String) : Value := .list (ss.map Value.text)

def numberSchema : Value :=
  .map [entry "type" (names ["integer", "string"]), entry "format" (.text "number")]

def modelSchema : Value :=
  .map [entry "type" (.text "string"), entry "enum" (names (Labelled.labels MemoryModel))]

def boundsSchema : Value :=
  .map [entry "type" (.text "array"), entry "minItems" (.int 2), entry "maxItems" (.int 2),
    entry "items" numberSchema]

def layoutSchema : Value :=
  .map [entry "type" (.text "object"), entry "minProperties" (.int 1),
    entry "additionalProperties" boundsSchema]

def memorySchema : Value :=
  object [entry "model" modelSchema, entry "layout" layoutSchema]
    [entry "required" (names ["layout"])]

def romSchema : Value :=
  object [entry "start" numberSchema, entry "length" numberSchema]
    [entry "required" (names ["start", "length"])]

def constantsSchema : Value :=
  .map [entry "type" (.text "object"), entry "additionalProperties" numberSchema]

def schema : Value :=
  object [entry "memory" memorySchema, entry "rom" romSchema, entry "constants" constantsSchema]
    [entry "title" (.text "Link configuration"), entry "required" (names ["memory", "rom"])]

def validation (c : Config) : Validation := ⟨[schema], c.searchPaths, true, false⟩

def boundsOf (v : Value) : Except Fault Value :=
  match v with
  | .list xs | .tuple xs => do
    let ns ← xs.mapM fun x => Value.toInt x none
    pure (.list (ns.map Value.int))
  | v => .error (.system (.notIterable v))

def layoutEntries (es : Value.Entries) : Except Fault Value.Entries :=
  es.mapM fun e => do
    let b ← boundsOf e.2
    pure (e.1, b)

def constantsOf (es : Value.Entries) : Except Fault (List (Value × Int)) :=
  es.mapM fun e => do
    let n ← e.2.toInt none
    pure (e.1, n)

def romBound (c : Config) (given : Option Int) (key : String) : Except Fault Int :=
  match given with
  | some n => .ok n
  | none => Config.getInteger c.entries (.text key) .null

def convert (c : Config) (romStart romLength : Option Int) : Run LinkConfig := do
  let raw ← Run.ofExcept (Config.getDictionary c.entries (.text "memory/layout") .null)
  let raw ← Run.ofExcept (layoutEntries raw)
  let model ← Run.ofExcept
    (Config.getText c.entries (.text "memory/model") (.text (Labelled.label Memory.defaultModel)))
  let layout ← Run.normalize raw (.text model)
  let romStart ← Run.ofExcept (romBound c romStart "rom/start")
  let romLength ← Run.ofExcept (romBound c romLength "rom/length")
  let constants ← Run.ofExcept (Config.getDictionary c.entries (.text "constants") (.map []))
  let constants ← Run.ofExcept (constantsOf constants)
  pure ⟨layout, romStart, romLength, constants⟩

/-- Reads a configuration. ROM bounds that are given override those of the configuration. -/
def load (c : Config) (romStart romLength : Option Int) : Run LinkConfig := do
  (validation c).run Schema.standard true (.map c.entries)
  convert c romStart romLength

def script (l : LinkConfig) (date : String) : Run String :=
  Run.emit l.layout (l.constants.map fun c => (c.1, .int c.2)) (.int l.romStart) (.int l.romLength)
    date

end LinkConfig

namespace Run

def loadConfig (path : String) : Run Config := do
  let w ← get
  let path := Path.withSlashes (Path.absolute w.directoryPath path)
  let entries ← loadEntries Search.here path
  let directory := Path.parent path
  pure ⟨entries, directory, Path.fileName path, [directory]⟩

end Run
end FirmwareKit
