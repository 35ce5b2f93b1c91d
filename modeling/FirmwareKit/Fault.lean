import FirmwareKit.SystemFault
set_option autoImplicit false

namespace FirmwareKit

inductive Fault.Kind where
  | general
  | key
  | value
  | type
  | overlap
  | layout
  | invalidIdentifier
  | negativeSize
  | romArea
  | segmentBoundary
  | overlapping
  | missingStack
  | unknownModel
  | invalidConstant
  | unsupportedInput
  | app
  | parameter
  | system (className : String)
deriving DecidableEq, Repr

inductive Fault where
  | invalidIdentifier (name : Value)
  | notPair (name : String)
  | negativeAddress (name : String)
  | negativeSize (name : Value)
  | inRomArea (name : Value)
  | crossesSegment (name : Value)
  | overlapping (name other : Value)
  | missingStack
  | unknownModel (model : Value)
  | invalidConstant (name : Value)
  | noMemberWithTag (type : String) (tag : Value)
  | noMemberWithLabel (type label : String)
  | labelNotText
  | notTagOrLabel
  | notNumber (value : Value)
  | notInteger (value : Value)
  | notIntegerText (value : Value)
  | pathNotFound (path : String)
  | pathNotFoundIn (path : String) (searched : List String)
  | unloadable (reason : String)
  | unparsable (path : String)
  | notMapping (path : String)
  | missingKey (key config : Value)
  | listKeyNotNumber
  | invalidKeyPath
  | notDictionaryAt (key : Value)
  | notIntegerAt (key : Value)
  | notTextAt (key : Value)
  | invalidSchema (reason : String)
  | validationFailed (reason : String)
  | unsupportedInput (value : Value)
  | contextInactive
  | noTarget
  | noFileName
  | duplicateArray (name input : String)
  | alignmentNotPositive (alignment : Int)
  /-- A fault of a general kind, with its own description. -/
  | described (kind : Fault.Kind) (description : Value)
  | app (description code : Value)
  | system (cause : SystemFault)
deriving Repr

namespace Fault

def kind : Fault → Kind
  | .invalidIdentifier _ => .invalidIdentifier
  | .notPair _ | .negativeAddress _ => .value
  | .negativeSize _ => .negativeSize
  | .inRomArea _ => .romArea
  | .crossesSegment _ => .segmentBoundary
  | .overlapping .. => .overlapping
  | .missingStack => .missingStack
  | .unknownModel _ => .unknownModel
  | .invalidConstant _ => .invalidConstant
  | .noMemberWithTag .. | .noMemberWithLabel .. | .labelNotText | .missingKey .. => .key
  | .notTagOrLabel => .type
  | .notInteger _ | .notIntegerText _ => .parameter
  | .unsupportedInput _ => .unsupportedInput
  | .duplicateArray .. | .alignmentNotPositive _ | .app .. => .app
  | .described kind _ => kind
  | .system cause => .system cause.className
  | .notNumber _ | .pathNotFound _ | .pathNotFoundIn .. | .unloadable _ | .unparsable _
  | .notMapping _ | .listKeyNotNumber | .invalidKeyPath | .notDictionaryAt _ | .notIntegerAt _
  | .notTextAt _ | .invalidSchema _ | .validationFailed _ | .contextInactive | .noTarget
  | .noFileName => .general

def unknownDescription : String := "Unknown Error"

def description : Fault → String
  | .invalidIdentifier name => s!"memory layout contains invalid identifier: {name.display}"
  | .notPair name => s!"memory layout entry {name} must be a [start, end] pair"
  | .negativeAddress name => s!"memory layout entry {name} has a negative address"
  | .negativeSize name => s!"memory layout contains negative-sized entry: {name.display}"
  | .inRomArea name => s!"memory layout contains entry in ROM area: {name.display}"
  | .crossesSegment name =>
    s!"memory layout contains entry across segment boundaries: {name.display}"
  | .overlapping a b =>
    s!"memory layout contains overlapping entries: {a.display}, {b.display}"
  | .missingStack => "missing stack area in memory layout"
  | .unknownModel model => s!"unsupported memory model: {model.display}"
  | .invalidConstant name => s!"invalid constant type for {name.display}"
  | .noMemberWithTag type tag =>
    s!"There is no {type} item in with tag {tag.display} defined"
  | .noMemberWithLabel type label => s!"There is no {type} item with label {label} defined"
  | .labelNotText => "Label must be string"
  | .notTagOrLabel => "Object must be either string or integer"
  | .notNumber v => s!"Invalid input number type({v.typeDisplay}) with value ({v.display})"
  | .notInteger v => s!"{v.quoted} is not a valid integer"
  | .notIntegerText v =>
    s!"expected string for int() conversion, got {v.quoted} of type {v.typeName}"
  | .pathNotFound path => s!"Path '{path}' not found"
  | .pathNotFoundIn path searched =>
    let places := ", ".intercalate searched
    s!"Path '{path}' not found, Searched in: {places}"
  | .unloadable reason => s!"Can't load configuration file: {reason}"
  | .unparsable path => s!"Can't parse configuration file: {path}"
  | .notMapping path => s!"Invalid configuration file: {path}"
  | .missingKey key config => s!"The {key.display} doesn't exists in {config.display}"
  | .listKeyNotNumber => "Invalid key path - from list must be used number as key"
  | .invalidKeyPath => "Invalid configuration key path."
  | .notDictionaryAt key => s!"The value is not dictionary at key: {key.display}"
  | .notIntegerAt key => s!"The value is not integer at key: {key.display}"
  | .notTextAt key => s!"The value is not string at key: {key.display}"
  | .invalidSchema reason => s!"Invalid validation schema to check config: {reason}"
  | .validationFailed reason => s!"Configuration validation failed: {reason}"
  | .unsupportedInput v => s!"unsupported type: {v.typeName}"
  | .contextInactive => "Process context is not active"
  | .noTarget => "No target for the dependency file"
  | .noFileName => "Could not determine file name for symbol"
  | .duplicateArray name input => s!"Duplicate array name {name} for input {input}"
  | .alignmentNotPositive n => s!"Alignment must be a positive number, got {n}"
  | .described _ d | .app d _ => if d.isTruthy then d.display else unknownDescription
  | .system cause => cause.message

def Kind.isAnnounced : Kind → Bool
  | .general | .key | .value | .type | .overlap => true
  | _ => false

def message (f : Fault) : String :=
  if f.kind.isAnnounced then "WSWAN: " ++ f.description else f.description

def attributes : Fault → List (String × Value)
  | .invalidIdentifier name | .negativeSize name | .inRomArea name | .crossesSegment name
  | .invalidConstant name => [("name", name)]
  | .overlapping a b => [("name1", a), ("name2", b)]
  | .unknownModel model => [("model", model)]
  | _ => []

def shownValues : Fault → List Value
  | .invalidIdentifier v | .negativeSize v | .inRomArea v | .crossesSegment v
  | .unknownModel v | .invalidConstant v | .noMemberWithTag _ v | .notNumber v | .notInteger v
  | .notIntegerText v | .notDictionaryAt v | .notIntegerAt v | .notTextAt v | .described _ v
  | .app v _ => [v]
  | .overlapping v w | .missingKey v w => [v, w]
  | .alignmentNotPositive n => [.int n]
  | _ => []

/-- A fault that would have to show an overlong integer gives way to the fault of that. -/
def shown (f : Fault) : Fault :=
  if f.shownValues.any Value.isOverlong then .system .overlongInteger else f

def raise {α : Type} (f : Fault) : Except Fault α := .error f.shown

namespace Kind

def name : Kind → String
  | .general => "WSWANError"
  | .key => "WSWANKeyError"
  | .value => "WSWANValueError"
  | .type => "WSWANTypeError"
  | .overlap => "WSWANOverlapError"
  | .layout => "WSWANLayoutError"
  | .invalidIdentifier => "InvalidIdentifier"
  | .negativeSize => "NegativeSizeRegion"
  | .romArea => "RegionInRomArea"
  | .segmentBoundary => "RegionCrossesSegmentBoundary"
  | .overlapping => "OverlappingRegions"
  | .missingStack => "MissingStackArea"
  | .unknownModel => "UnsupportedMemoryModel"
  | .invalidConstant => "InvalidConstantType"
  | .unsupportedInput => "UnsupportedInputType"
  | .app => "WSWANAppError"
  | .parameter => "BadParameter"
  | .system className => className

def own : List Kind := [
  .general, .key, .value, .type, .overlap, .layout, .invalidIdentifier, .negativeSize, .romArea,
  .segmentBoundary, .overlapping, .missingStack, .unknownModel, .invalidConstant,
  .unsupportedInput, .app]

def isOwn (k : Kind) : Bool := own.contains k

def ofName? (name : String) : Option Kind := own.find? fun k => k.name == name

def lineage (k : Kind) : List String :=
  let general := Kind.general.name
  let rest : List String := match k with
    | .general => []
    | .key => [general, "KeyError", "LookupError"]
    | .value | .overlap => [general, "ValueError"]
    | .type => [general, "TypeError"]
    | .layout => [value.name, general, "ValueError"]
    | .overlapping => [layout.name, value.name, overlap.name, general, "ValueError"]
    | .invalidIdentifier | .negativeSize | .romArea | .segmentBoundary | .missingStack
    | .unknownModel => [layout.name, value.name, general, "ValueError"]
    | .invalidConstant | .unsupportedInput => [type.name, general, "TypeError"]
    | .app => [general]
    | .parameter | .system _ => []
  k.name :: rest ++ ["Exception"]

end Kind

def make? (kind : Kind) (args : List Value) : Option Fault :=
  match kind, args with
  | .invalidIdentifier, [v] => some (.invalidIdentifier v)
  | .negativeSize, [v] => some (.negativeSize v)
  | .romArea, [v] => some (.inRomArea v)
  | .segmentBoundary, [v] => some (.crossesSegment v)
  | .overlapping, [v, w] => some (.overlapping v w)
  | .missingStack, [] => some .missingStack
  | .unknownModel, [v] => some (.unknownModel v)
  | .invalidConstant, [v] => some (.invalidConstant v)
  | .unsupportedInput, [v] => some (.unsupportedInput v)
  | .app, [] => some (.app .null (.int 1))
  | .app, [v] => some (.app v (.int 1))
  | .app, [v, code] => some (.app v code)
  | .general, args | .key, args | .value, args | .type, args | .overlap, args | .layout, args =>
    match args with
    | [] => some (.described kind .null)
    | [v] => some (.described kind v)
    | _ => none
  | _, _ => none

end Fault
end FirmwareKit
