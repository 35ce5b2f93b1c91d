import FirmwareKit.Command.Arguments
import FirmwareKit.Command.Outline
import FirmwareKit.Text.Quoted
set_option autoImplicit false

namespace FirmwareKit.Usage

def lineWidth : Nat := 78
def outlineWidth : Nat := 160
def greatestLabelWidth : Nat := 30
def greatestOutlineLabelWidth : Nat := 80
def columnGap : Nat := 2
def leastTextWidth : Nat := 10

def blanks (n : Nat) : String := String.ofList (List.replicate n ' ')

def fillLines (width : Nat) (line : String) : List String → List String
  | [] => [line]
  | word :: rest =>
    if line.isEmpty then fillLines width word rest
    else if line.length + 1 + word.length ≤ width then fillLines width (line ++ " " ++ word) rest
    else line :: fillLines width word rest

def wrap (width : Nat) (text : String) : List String :=
  fillLines width "" ((Text.splitOnChar ' ' text.toList).map String.ofList)

def labelColumn (greatest : Nat) (rows : List Outline.Row) : Nat :=
  min (rows.foldl (fun n r => max n r.label.length) 0) greatest + columnGap

/-- A text stands beside its label, or below it if the label is too wide. -/
def definition (width column : Nat) (r : Outline.Row) : String :=
  let indent := blanks columnGap
  let gap := if r.label.length + columnGap ≤ column then blanks (column - r.label.length)
    else "\n" ++ blanks (column + columnGap)
  if r.summary.isEmpty then indent ++ r.label ++ "\n"
  else
    let lines := wrap (max (width - column - columnGap) leastTextWidth) r.summary
    indent ++ r.label ++ gap ++ ("\n" ++ blanks (column + columnGap)).intercalate lines ++ "\n"

def definitions (width greatest : Nat) (rows : List Outline.Row) : String :=
  String.join (rows.map (definition width (labelColumn greatest rows)))

def metavariable : Parameter.Kind → String
  | .file .. => "FILE"
  | .integer => "INTEGER"
  | .text => "TEXT"

def parameterLabel (p : Parameter) : String :=
  ", ".intercalate p.names ++ match p.role with
    | .takes kind _ => " " ++ metavariable kind
    | _ => ""

def parameterRow (p : Parameter) : Outline.Row :=
  ⟨parameterLabel p, p.help ++ (if p.isRequired then "  [required]" else "")⟩

def operandPart (c : CommandSpec) : String :=
  if c.isGroup then " COMMAND [ARGS]..."
  else match c.operands with
    | some o => " " ++ o.metavariable
    | none => ""

def usageLine (c : CommandSpec) : String := s!"Usage: {c.path} [OPTIONS]{operandPart c}\n"

def help (c : CommandSpec) (outline : Option Outline) : String :=
  usageLine c ++ s!"\n  {c.summary}\n\nOptions:\n"
    ++ definitions lineWidth greatestLabelWidth (c.parameters.map parameterRow)
    ++ match outline with
      | some o => "\nCommands:\n" ++ definitions outlineWidth greatestOutlineLabelWidth o.rows
      | none => ""

def suggestionText : List String → String
  | [] => ""
  | [s] => s!" Did you mean {s}?"
  | ss =>
    let options := ", ".intercalate ss
    s!" (Possible options: {options})"

def message : UsageFault → String
  | .noSuchOption name suggestions => s!"No such option: {name}" ++ suggestionText suggestions
  | .noSuchCommand name => s!"No such command {Text.quote name}."
  | .missingCommand => "Missing command."
  | .needsValue name => s!"Option {Text.quote name} requires an argument."
  | .takesNoValue name => s!"Option {Text.quote name} does not take a value."
  | .extraOperands operands =>
    let plural := if operands.length = 1 then "" else "s"
    let list := " ".intercalate operands
    s!"Got unexpected extra argument{plural} ({list})"
  | .missingOption hint => s!"Missing option {hint}."
  | .missingOperands hint => s!"Missing argument {hint}."
  | .notInteger hint given =>
    s!"Invalid value for {hint}: {Text.quote given} is not a valid integer"
  | .noSuchFile hint given => s!"Invalid value for {hint}: File {Text.quote given} does not exist."
  | .isDirectory hint given =>
    s!"Invalid value for {hint}: File {Text.quote given} is a directory."

/-- A value that is out of place is complained about without a word on the usage. -/
def showsUsage : UsageFault → Bool
  | .needsValue _ | .takesNoValue _ => false
  | _ => true

def helpHint (c : CommandSpec) : String :=
  if c.isGroup then "" else s!"Try '{c.path} --help' for help.\n"

def complaint (c : CommandSpec) (f : UsageFault) : String :=
  (if showsUsage f then usageLine c ++ helpHint c ++ "\n" else "") ++ s!"Error: {message f}\n"

end FirmwareKit.Usage
