import FirmwareKit.Log.Note
import FirmwareKit.Embed.Identifier
set_option autoImplicit false

namespace FirmwareKit.Embed

structure ByteArray where
  name : String
  data : List UInt8
  alignment : Option Int
  addressSpace : Option String
deriving Repr

def valuesPerLine : Nat := 12

def literal (b : UInt8) : List Char := '0' :: 'x' :: Text.upperHex 2 b.toNat

/-- A line break and a tab stand before every twelfth byte, a blank before the others. -/
def bodyFrom (column : Nat) : List UInt8 → List Char
  | [] => []
  | b :: rest =>
    (if column = 0 then ['\n', '\t'] else [' ']) ++ literal b
      ++ (if rest.isEmpty then [] else [','])
      ++ bodyFrom ((column + 1) % valuesPerLine) rest

def body (data : List UInt8) : String := String.ofList (bodyFrom 0 data)

def qualifier (a : ByteArray) : String :=
  match a.addressSpace with
  | some s => if s.isEmpty then "" else s ++ " "
  | none => ""

def alignmentText (a : ByteArray) : String :=
  match a.alignment with
  | some n => if n = 0 then "" else s!"__attribute__((aligned({n}))) "
  | none => ""

def declaration (a : ByteArray) : String :=
  s!"#define {a.name}_size ({a.data.length})\n"
    ++ s!"extern const uint8_t {qualifier a}{a.name}[{a.data.length}];\n"

def definition (a : ByteArray) : String :=
  s!"const uint8_t {qualifier a}{a.name}[{a.data.length}] {alignmentText a}= \x7b"
    ++ body a.data ++ "\n\x7d;\n"

def banner (program date : String) : String :=
  s!"// autogenerated by {program} on {date}\n\n"

def headerText (program date : String) (arrays : List ByteArray) : String :=
  banner program date ++ "#pragma once\n#include <stdint.h>\n#include <wonderful.h>\n\n"
    ++ String.join (arrays.map declaration)

def sourceText (program date : String) (arrays : List ByteArray) : String :=
  banner program date ++ "#include <stdint.h>\n#include <wonderful.h>\n\n"
    ++ String.join (arrays.map definition)

/-- An array of a name that is there already takes the place of the first. -/
def insert (arrays : List ByteArray) (a : ByteArray) : List ByteArray :=
  if arrays.any (fun b => b.name == a.name) then
    arrays.map fun b => if b.name == a.name then a else b
  else arrays ++ [a]

def ofList (arrays : List ByteArray) : List ByteArray := arrays.foldl insert []

def isOverlong (a : ByteArray) : Bool := a.alignment.any Value.isLongInteger

def write (program date : String) (arrays : List ByteArray) : Except Fault (String × String) :=
  if arrays.any isOverlong then .error (.system .overlongInteger)
  else .ok (sourceText program date arrays, headerText program date arrays)

def reached : List ByteArray → List ByteArray
  | [] => []
  | a :: rest => if isOverlong a then [a] else a :: reached rest

def embedded (a : ByteArray) : Note :=
  .debug "wswantool.utils.bin2c" s!"Embedding {a.name}: {a.data.length} byte(s)"

end FirmwareKit.Embed
