import FirmwareKit.Value.Basic
import FirmwareKit.Binary64.Decimal
import FirmwareKit.Text.Quoted
set_option autoImplicit false

namespace FirmwareKit.Value

def memberText {α : Type} [Labelled α] (m : α) : String :=
  s!"{Labelled.typeName α}.{Labelled.name m}"

def quotedMember {α : Type} [Labelled α] (m : α) : String :=
  let label := Text.quote (Labelled.label m)
  let description := Text.quote (Labelled.description m)
  "<" ++ memberText m ++ s!": WSWANEnumMember(tag={Labelled.tag m}, label={label}, "
    ++ s!"description={description})>"

def quoteBytes (data : List UInt8) : String := String.ofList (Text.quotedBytes data)

mutual
def quoted : Value → String
  | .null => "None"
  | .bool b => if b then "True" else "False"
  | .int n => String.ofList (Text.integer n)
  | .float x => x.text
  | .text s => Text.quote s
  | .bytes data => quoteBytes data
  | .buffer data => s!"bytearray({quoteBytes data})"
  | .list items => "[" ++ ", ".intercalate (quotedItems items) ++ "]"
  | .tuple [item] => "(" ++ quoted item ++ ",)"
  | .tuple items => "(" ++ ", ".intercalate (quotedItems items) ++ ")"
  | .map entries => "\x7b" ++ ", ".intercalate (quotedEntries entries) ++ "\x7d"
  | .set [] => "set()"
  | .set items => "\x7b" ++ ", ".intercalate (quotedItems items) ++ "\x7d"
  | .moment m => m.quoted
  | .model m => quotedMember m
  | .bank t => quotedMember t
  | .fileRef p => s!"FileRef(path={Text.quote p})"
  | .dataRef data => s!"DataRef(data={quoteBytes data})"
  | .path p => s!"PurePosixPath({Text.quote p})"

def quotedItems : List Value → List String
  | [] => []
  | v :: rest => quoted v :: quotedItems rest

def quotedEntries : List (Value × Value) → List String
  | [] => []
  | (k, v) :: rest => (quoted k ++ ": " ++ quoted v) :: quotedEntries rest
end

def display : Value → String
  | .text s => s
  | .moment m => m.text
  | .model m => memberText m
  | .bank t => memberText t
  | .path p => p
  | v => quoted v

def greatestDigitCount : Nat := 4300

def isLongInteger (n : Int) : Bool := Nat.pow 10 greatestDigitCount ≤ n.natAbs

mutual
def isOverlong : Value → Bool
  | .int n => isLongInteger n
  | .list items => areOverlong items
  | .tuple items => areOverlong items
  | .set items => areOverlong items
  | .map entries => haveOverlong entries
  | _ => false

def areOverlong : List Value → Bool
  | [] => false
  | v :: rest => isOverlong v || areOverlong rest

def haveOverlong : List (Value × Value) → Bool
  | [] => false
  | (k, v) :: rest => isOverlong k || isOverlong v || haveOverlong rest
end

def typeName : Value → String
  | .null => "NoneType"
  | .bool _ => "bool"
  | .int _ => "int"
  | .float _ => "float"
  | .text _ => "str"
  | .bytes _ => "bytes"
  | .buffer _ => "bytearray"
  | .list _ => "list"
  | .tuple _ => "tuple"
  | .map _ => "dict"
  | .set _ => "set"
  | .moment m => m.typeName
  | .model _ => "MemoryModel"
  | .bank _ => "BankTag"
  | .fileRef _ => "FileRef"
  | .dataRef _ => "DataRef"
  | .path _ => "PurePosixPath"

def typeDisplay (v : Value) : String :=
  let name := v.typeName
  match v with
  | .model _ | .bank _ => s!"<enum '{name}'>"
  | .fileRef _ | .dataRef _ => s!"<class 'wswantool.utils.process.{name}'>"
  | .path _ => s!"<class 'pathlib.{name}'>"
  | .moment _ => s!"<class 'datetime.{name}'>"
  | _ => s!"<class '{name}'>"

end FirmwareKit.Value
