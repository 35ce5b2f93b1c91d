set_option autoImplicit false

namespace FirmwareKit.Embed

def isIdentifierChar (c : Char) : Bool := c.isAlphanum || c == '_'

def toIdentifierChar (c : Char) : Char := if isIdentifierChar c then c else '_'

def identifierChars (cs : List Char) : List Char :=
  let body := cs.map toIdentifierChar
  match body with
  | [] => ['_']
  | c :: _ => if c.isDigit then '_' :: body else body

/-- A name in C starts with no digit. -/
def isIdentifier (s : String) : Bool :=
  match s.toList with
  | [] => false
  | c :: rest => isIdentifierChar c && !c.isDigit && rest.all isIdentifierChar

def toIdentifier (s : String) : String := String.ofList (identifierChars s.toList)

end FirmwareKit.Embed
