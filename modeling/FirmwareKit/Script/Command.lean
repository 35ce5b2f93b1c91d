import FirmwareKit.Value.Text
set_option autoImplicit false

namespace FirmwareKit.Script

structure Name where
  text : String
  quoted : Bool
deriving DecidableEq, Repr

def Name.plain (text : String) : Name := ⟨text, false⟩
def Name.inQuotes (text : String) : Name := ⟨text, true⟩

/-- A name of a bank: names of the alternate banks carry their suffix and stand in quotes. -/
def Name.tagged (tag : BankTag) (text : String) : Name :=
  ⟨text ++ tag.suffix, tag ≠ .primary⟩

inductive Expr where
  | here
  /-- Zero, perhaps for a constant of this name. -/
  | zero (constant : Option Value)
  | number (n : Int)
  | absolute (value : Value)
  | align (boundary : Value)
  | sizeOf (name : String)
  /-- The number of words in so many bytes as the symbol says. -/
  | words (symbol : String)
deriving Repr

inductive Target where
  | counter
  | symbol (name : Name)
deriving DecidableEq, Repr

inductive Address where
  | here
  | fixed (address : Value)
  | aligned
deriving Repr

/-- The head of an output section. A section that is not loaded takes no room in the image. -/
structure Header where
  name : Name
  address : Address
  loaded : Bool
  /-- The section is loaded behind the section of this name. -/
  loadAfter : Option String
deriving Repr

inductive Input where
  | all (patterns : List Name)
  | keep (pattern : Name)
  | sorted (pattern : Name)
deriving DecidableEq, Repr

inductive Command where
  | verbatim (text : String)
  | blank
  | comment (text : String)
  | memory (name attributes : String) (origin length : Value)
  | assign (level : Nat) (target : Target) (value : Expr)
  | openSection (header : Header)
  /-- The head with the brace on its own line. -/
  | openInline (header : Header)
  | closeSection (region : Option String)
  | input (level : Nat) (input : Input)
  /-- A whole output section that is not part of the image. -/
  | outside (name : String) (patterns : List String)
deriving Repr

def indentation : String := "    "

def indent (level : Int) : String :=
  String.join (List.replicate level.toNat indentation)

/-- An empty line has no indentation. -/
def line (level : Int) (text : String) : String :=
  if text.isEmpty then "\n" else indent level ++ text ++ "\n"

def assignment (level : Int) (symbol value : String) : String :=
  line level (symbol ++ " = " ++ value ++ ";")

def opening (header : String) : String := line 1 header ++ line 1 "\x7b"

def closing (region : Option String) : String :=
  line 1 (match region with
    | some r => if r.isEmpty then "\x7d" else "\x7d >" ++ r
    | none => "\x7d")

def Name.render (n : Name) : String := if n.quoted then "\"" ++ n.text ++ "\"" else n.text

def Expr.render : Expr → String
  | .here => "."
  | .zero _ => "0"
  | .number n => (Value.int n).display
  | .absolute v => "ABSOLUTE(" ++ v.display ++ ")"
  | .align b => "ALIGN (" ++ b.display ++ ")"
  | .sizeOf s => "SIZEOF(" ++ s ++ ")"
  | .words s => "(" ++ s ++ " + 1) / 2"

def Target.render : Target → String
  | .counter => "."
  | .symbol n => n.render

def Address.render : Address → String
  | .here => "."
  | .fixed v => v.display
  | .aligned => "ALIGN (0x10)"

def Header.render (h : Header) : String :=
  h.name.render ++ " " ++ h.address.render ++ (if h.loaded then " :" else " (NOLOAD) :")
    ++ (match h.loadAfter with
      | some s =>
        let name := (Name.inQuotes s).render
        " AT(ADDR(" ++ name ++ ") + SIZEOF(" ++ name ++ "))"
      | none => "")

def Input.render : Input → String
  | .all ps => "*(" ++ " ".intercalate (ps.map Name.render) ++ ")"
  | .keep p => "KEEP(*(" ++ p.render ++ "))"
  | .sorted p => "*(SORT (" ++ p.render ++ "))"

def Command.render : Command → String
  | .verbatim text => text
  | .blank => "\n"
  | .comment text => line 1 ("/* " ++ text ++ " */")
  | .memory name attributes origin length =>
    line 1 (s!"{name} ({attributes}) : ORIGIN = {origin.display}, LENGTH = {length.display}")
  | .assign level target value => assignment level target.render value.render
  | .openSection h => opening h.render
  | .openInline h => line 1 (h.render ++ " SUBALIGN (0x10) \x7b")
  | .closeSection region => closing region
  | .input level i => line level i.render
  | .outside s ps => line 1 (s ++ " 0 : \x7b *(" ++ " ".intercalate ps ++ ") \x7d")

def render (commands : List Command) : String := String.join (commands.map Command.render)

def Command.numbers : Command → List Value
  | .memory _ _ origin length => [origin, length]
  | .assign _ _ (.number n) => [.int n]
  | .assign _ _ (.absolute v) | .assign _ _ (.align v) => [v]
  | .openSection h | .openInline h =>
    match h.address with
    | .fixed v => [v]
    | _ => []
  | _ => []

/-- The name of a constant, which may be a number itself. -/
def Command.constant? : Command → Option Value
  | .assign _ _ (.zero name) => name
  | _ => none

def Command.displayed (c : Command) : List Value := c.constant?.toList ++ c.numbers

def Command.isOverlong (c : Command) : Bool := c.displayed.any Value.isOverlong

def isOverlong (commands : List Command) : Bool := commands.any Command.isOverlong

/-- The commands before the first that shows a number too long to be written. -/
def writable (commands : List Command) : List Command :=
  commands.takeWhile fun c => !c.isOverlong

end FirmwareKit.Script
