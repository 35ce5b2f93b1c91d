import FirmwareKit.Text.Lines
import FirmwareKit.Text.Digits
set_option autoImplicit false

namespace FirmwareKit.Path

def parts (path : String) : List String :=
  (Text.splitOnChar '/' path.toList).map String.ofList

def ofParts (parts : List String) : String := "/".intercalate parts

def withSlashes (path : String) : String :=
  String.ofList (path.toList.map fun c => if c = '\\' then '/' else c)

def isAbsolute (path : String) : Bool := path.toList.head? == some '/'

/-- An absolute second path stands for itself. -/
def join (base path : String) : String :=
  if isAbsolute path then path
  else if base.isEmpty || base.toList.getLast? == some '/' then base ++ path
  else base ++ "/" ++ path

/-- Exactly two leading slashes are kept; otherwise all of them count as one. -/
def leadingSlashes (path : String) : Nat :=
  match (path.toList.takeWhile (· = '/')).length with
  | 0 => 0
  | 2 => 2
  | _ => 1

/-- Empty parts and single dots vanish; two dots cancel the part before them, and vanish at the
root. -/
def collapse (rooted : Bool) (stack : List String) : List String → List String
  | [] => stack.reverse
  | part :: rest =>
    if part = "" ∨ part = "." then collapse rooted stack rest
    else if part = ".." then
      match stack with
      | [] => if rooted then collapse rooted [] rest else collapse rooted [".."] rest
      | top :: below =>
        if top = ".." then collapse rooted (".." :: stack) rest else collapse rooted below rest
    else collapse rooted (part :: stack) rest

def normalize (path : String) : String :=
  let n := leadingSlashes path
  let body := ofParts (collapse (0 < n) [] (parts path))
  let whole := String.ofList (List.replicate n '/') ++ body
  if whole.isEmpty then "." else whole

def absolute (directory path : String) : String :=
  normalize (if isAbsolute path then path else join directory path)

def fromBase (directory path : String) (base : Option String) : String :=
  if isAbsolute path then withSlashes path
  else
    let base := match base with
      | some b => if b.isEmpty then directory else b
      | none => directory
    withSlashes (absolute directory (join base path))

def resolved (directory path : String) : String :=
  "/" ++ ofParts (collapse true [] (parts (if isAbsolute path then path else join directory path)))

def splitLast (path : String) : List Char × List Char :=
  let reversed := path.toList.reverse
  ((reversed.dropWhile (· ≠ '/')).reverse, (reversed.takeWhile (· ≠ '/')).reverse)

def fileName (path : String) : String := String.ofList (splitLast path).2

/-- Trailing slashes are dropped, unless there is nothing else. -/
def parent (path : String) : String :=
  let head := (splitLast path).1
  String.ofList
    (if head.all (· = '/') then head else (head.reverse.dropWhile (· = '/')).reverse)

/-- Splits off the extension of the last part, with its dot. Dots a name begins with start none. -/
def splitExtension (path : String) : String × String :=
  let (head, name) := splitLast path
  let dots := name.takeWhile (· = '.')
  let body := name.dropWhile (· = '.')
  let reversed := body.reverse
  match reversed.dropWhile (· ≠ '.') with
  | [] => (path, "")
  | '.' :: stem =>
    (String.ofList (head ++ dots ++ stem.reverse),
      String.ofList ('.' :: (reversed.takeWhile (· ≠ '.')).reverse))
  | _ => (path, "")

/-- A path as an object keeps two dots but no single ones, and no doubled slashes. -/
def object (path : String) : String :=
  let n := leadingSlashes path
  let body := ofParts ((parts path).filter fun p => p ≠ "" ∧ p ≠ ".")
  let whole := String.ofList (List.replicate n '/') ++ body
  if whole.isEmpty then "." else whole

end FirmwareKit.Path
