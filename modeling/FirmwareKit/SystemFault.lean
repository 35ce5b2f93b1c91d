import FirmwareKit.Value.Text
import FirmwareKit.Text.Utf8
set_option autoImplicit false

namespace FirmwareKit

inductive SystemFault where
  | notDirectory (path : String)
  | isDirectory (path : String)
  | alreadyExists (path : String)
  | noSuchFile (path : String)
  | nameTooLong (path : String)
  | nulCharacter
  | undecodable (fault : Text.Utf8.Malformed)
  | unencodable (encoding : String) (char : Char) (position limit : Nat)
  | unknownEncoding (encoding : String)
  | malformedInteger (base : Nat) (text : String)
  | malformedFloat (text : String)
  | tooManyDigits (count : Nat)
  | overlongInteger
  | overflow (text : String)
  | divisionByZero (text : String)
  | noLength (value : Value)
  | notIterable (value : Value)
  | wrongType (text : String)
  | badValue (text : String)
  | absentKey (key : Value)
  | indexOutOfRange (text : String)
  | noAttribute (value : Value) (name : String)
  /-- A fault of someone else's class, with the arguments it was made of. -/
  | foreign (className : String) (args : List Value)
deriving Repr

namespace SystemFault

def generalClass : String := "OSError"

def numberedClasses : List (String × List Nat) := [
  ("FileNotFoundError", [2]), ("FileExistsError", [17]), ("NotADirectoryError", [20]),
  ("IsADirectoryError", [21]), ("PermissionError", [1, 13]), ("InterruptedError", [4]),
  ("BlockingIOError", [11]), ("BrokenPipeError", [32]), ("TimeoutError", [110])]

def isNumbered (name : String) : Bool :=
  name == generalClass || numberedClasses.any fun c => c.1 == name

/-- A number and a text make the general class one of its parts. -/
def foreignClass (name : String) (args : List Value) : String :=
  match args with
  | .int n :: _ :: _ =>
    if name == generalClass then
      ((numberedClasses.find? fun c => c.2.any fun m => (m : Int) == n).map Prod.fst).getD name
    else name
  | _ => name

def className : SystemFault → String
  | .notDirectory _ => "NotADirectoryError"
  | .isDirectory _ => "IsADirectoryError"
  | .alreadyExists _ => "FileExistsError"
  | .noSuchFile _ => "FileNotFoundError"
  | .nameTooLong _ => "OSError"
  | .undecodable _ => "UnicodeDecodeError"
  | .unencodable .. => "UnicodeEncodeError"
  | .unknownEncoding _ => "LookupError"
  | .nulCharacter | .malformedInteger .. | .malformedFloat _ | .tooManyDigits _
  | .overlongInteger | .badValue _ => "ValueError"
  | .overflow _ => "OverflowError"
  | .divisionByZero _ => "ZeroDivisionError"
  | .noLength _ | .notIterable _ | .wrongType _ => "TypeError"
  | .absentKey _ => "KeyError"
  | .indexOutOfRange _ => "IndexError"
  | .noAttribute .. => "AttributeError"
  | .foreign name args => foreignClass name args

def recursion (text : String) : SystemFault := .foreign "RecursionError" [.text text]

/-- One argument is shown as it is, though quoted where it is a key; more show as a tuple. -/
def argumentText (quoted : Bool) : List Value → String
  | [] => ""
  | [v] => if quoted then v.quoted else v.display
  | args => (Value.tuple args).quoted

def foreignText (name : String) (args : List Value) : String :=
  match isNumbered name, args with
  | true, [number, text] => s!"[Errno {number.display}] {text.display}"
  | true, [number, text, path] => s!"[Errno {number.display}] {text.display}: {path.quoted}"
  | _, args => argumentText (name == "KeyError") args

/-- Nothing is at an index, which may not even fit into a word. -/
def noSuchIndex (sequence : String) (n : Int) : SystemFault :=
  .indexOutOfRange (if n.toNat < Nat.pow 2 63 ∧ (-n).toNat ≤ Nat.pow 2 63 then sequence ++ "index out of range"
    else "cannot fit 'int' into an index-sized integer")

def message : SystemFault → String
  | .notDirectory p => s!"[Errno 20] Not a directory: {Text.quote p}"
  | .isDirectory p => s!"[Errno 21] Is a directory: {Text.quote p}"
  | .alreadyExists p => s!"[Errno 17] File exists: {Text.quote p}"
  | .noSuchFile p => s!"[Errno 2] No such file or directory: {Text.quote p}"
  | .nameTooLong p => s!"[Errno 36] File name too long: {Text.quote p}"
  | .nulCharacter => "embedded null byte"
  | .undecodable m => m.text
  | .unencodable encoding c position limit =>
    let code := String.ofList (Text.escapeCode c.toNat)
    s!"'{encoding}' codec can't encode character '{code}' in position {position}: "
      ++ s!"ordinal not in range({limit})"
  | .unknownEncoding e => s!"unknown encoding: {e}"
  | .malformedInteger base t => s!"invalid literal for int() with base {base}: {Text.quote t}"
  | .malformedFloat t => s!"could not convert string to float: {Text.quote t}"
  | .tooManyDigits n =>
    s!"Exceeds the limit ({Value.greatestDigitCount} digits) for integer string conversion: "
      ++ s!"value has {n} digits; use sys.set_int_max_str_digits() to increase the limit"
  | .overlongInteger =>
    s!"Exceeds the limit ({Value.greatestDigitCount} digits) for integer string conversion; "
      ++ "use sys.set_int_max_str_digits() to increase the limit"
  | .noLength v => s!"object of type '{v.typeName}' has no len()"
  | .notIterable v => s!"'{v.typeName}' object is not iterable"
  | .absentKey k => k.quoted
  | .noAttribute v a => s!"'{v.typeName}' object has no attribute '{a}'"
  | .overflow t | .divisionByZero t | .wrongType t | .badValue t | .indexOutOfRange t => t
  | .foreign name args => foreignText name args

end SystemFault
end FirmwareKit
