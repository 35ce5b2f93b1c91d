import FirmwareKit.Files.Search
set_option autoImplicit false

namespace FirmwareKit

inductive WriteMode.Access where
  | replace
  | extend
  | create
  | update
  | read
deriving DecidableEq, Repr

def WriteMode.Access.makes : WriteMode.Access → Bool
  | .replace | .extend | .create => true
  | .update | .read => false

structure WriteMode where
  access : WriteMode.Access
  binary : Bool
deriving DecidableEq, Repr

namespace WriteMode

def text : WriteMode := ⟨.replace, false⟩
def bytes : WriteMode := ⟨.replace, true⟩

def access? (letter : Char) (plus : Bool) : Option Access :=
  match letter with
  | 'w' => some .replace
  | 'a' => some .extend
  | 'x' => some .create
  | 'r' => some (if plus then .update else .read)
  | _ => none

/-- One letter for the access, each of the others at most once. -/
def parse? (mode : String) : Option WriteMode :=
  let cs := mode.toList
  let letters := cs.filter fun c => "wxar".toList.contains c
  let plus := cs.contains '+'
  let binary := cs.contains 'b'
  if cs.all (fun c => "wxarbt+".toList.contains c) && cs.eraseDups.length == cs.length
    && !(binary && cs.contains 't') then
    match letters with
    | [l] => (access? l plus).map (⟨·, binary⟩)
    | _ => none
  else none

end WriteMode

inductive Encoding where
  | utf8
  | markedUtf8
  | utf16 (isBig : Bool)
  | markedUtf16
  | latin1
  | ascii
deriving DecidableEq, Repr

namespace Encoding

def plainName (name : List Char) : List Char :=
  let cs := name.map fun c => if c.isAlphanum ∨ c = '.' then c.toLower else '_'
  ['_'].intercalate ((Text.splitOnChar '_' cs).filter fun word => !word.isEmpty)

def names : List (Encoding × List String) := [
  (.utf8, ["utf_8", "u8", "utf", "utf8", "utf8_ucs2", "utf8_ucs4", "cp65001"]),
  (.markedUtf8, ["utf_8_sig"]),
  (.utf16 false, ["utf_16_le", "utf_16le", "unicodelittleunmarked"]),
  (.utf16 true, ["utf_16_be", "utf_16be", "unicodebigunmarked"]),
  (.markedUtf16, ["utf_16", "u16", "utf16"]),
  (.latin1, ["latin_1", "8859", "cp819", "csisolatin1", "ibm819", "iso8859", "iso8859_1",
    "iso_8859_1", "iso_8859_1_1987", "iso_ir_100", "l1", "latin", "latin1"]),
  (.ascii, ["ascii", "646", "ansi_x3.4_1968", "ansi_x3_4_1968", "ansi_x3.4_1986", "cp367",
    "csascii", "ibm367", "iso646_us", "iso_646.irv_1991", "iso_ir_6", "us", "us_ascii"])]

def ofName? (name : String) : Option Encoding :=
  let name := String.ofList (plainName name.toList)
  (names.find? fun e => e.2.contains name).map Prod.fst

def unitBytes (isBig : Bool) (unit : Nat) : List UInt8 :=
  let high := UInt8.ofNat (unit / 256)
  let low := UInt8.ofNat (unit % 256)
  if isBig then [high, low] else [low, high]

/-- Characters beyond the first plane take two units. -/
def units (c : Char) : List Nat :=
  let n := c.toNat
  if n < 0x10000 then [n] else [0xD800 + (n - 0x10000) / 0x400, 0xDC00 + (n - 0x10000) % 0x400]

def limited (name : String) (limit : Nat) (s : String) : Except SystemFault (List UInt8) :=
  match s.toList.zipIdx.find? fun c => limit ≤ c.1.toNat with
  | some (c, i) => .error (.unencodable name c i limit)
  | none => .ok (s.toList.map fun c => UInt8.ofNat c.toNat)

def utf16Bytes (isBig : Bool) (s : String) : List UInt8 :=
  (s.toList.flatMap units).flatMap (unitBytes isBig)

/-- The bytes of a text, with the mark of the encoding if it stands at the start of a file. -/
def encode (e : Encoding) (isAtStart : Bool) (s : String) : Except SystemFault (List UInt8) :=
  match e with
  | .utf8 => .ok (Text.Utf8.encode s.toList)
  | .markedUtf8 =>
    .ok ((if isAtStart then [0xEF, 0xBB, 0xBF] else []) ++ Text.Utf8.encode s.toList)
  | .utf16 isBig => .ok (utf16Bytes isBig s)
  | .markedUtf16 => .ok ((if isAtStart then [0xFF, 0xFE] else []) ++ utf16Bytes false s)
  | .latin1 => limited "latin-1" 256 s
  | .ascii => limited "ascii" 128 s

end Encoding

namespace Run

def namedDirectory? (path : String) : Option String :=
  let trimmed := String.ofList (path.toList.reverse.dropWhile (· = '/')).reverse
  if trimmed == path || ["", ".", ".."].contains (Path.fileName trimmed) then none
  else some trimmed

/-- A file cannot be made where its path asks for a directory. -/
def refuseDirectory (path : String) : Run Unit :=
  match namedDirectory? path with
  | none => pure ()
  | some trimmed => do
    let _ ← locate trimmed
    system (.isDirectory path)

def openFor (mode : WriteMode) (path : String) : Run (Place × List UInt8) := do
  if mode.access.makes then refuseDirectory path
  match ← locate path with
  | .present _ .directory =>
    system (if mode.access = .create then .alreadyExists path else .isDirectory path)
  | .present place (.file content) =>
    match mode.access with
    | .create => system (.alreadyExists path)
    | .replace => do
      putEntry place (.file [])
      pure (place, [])
    | _ => pure (place, content)
  | .free place asDirectory =>
    match mode.access with
    | .read | .update => system (.noSuchFile path)
    | _ =>
      if asDirectory then system (.isDirectory path)
      else do
        putEntry place (.file [])
        pure (place, [])

def written (access : WriteMode.Access) (old new : List UInt8) : List UInt8 :=
  match access with
  | .update => new ++ old.drop new.length
  | _ => old ++ new

def dataBytes (mode : WriteMode) (encoding : Encoding) (isAtStart : Bool) :
    Value → Except SystemFault (Nat × List UInt8)
  | .text s =>
    if mode.binary then .error (.wrongType "a bytes-like object is required, not 'str'")
    else (encoding.encode isAtStart s).map fun bs => (s.length, bs)
  | .bytes bs | .buffer bs =>
    if mode.binary then .ok (bs.length, bs)
    else .error (.wrongType "write() argument must be str, not bytes")
  | v =>
    if mode.binary then .error (.wrongType s!"a bytes-like object is required, not '{v.typeName}'")
    else .error (.wrongType s!"write() argument must be str, not {v.typeName}")

def refuseWrite (mode : WriteMode) (data : Value) : Run Unit :=
  match mode.binary, data with
  | true, _ | false, .text _ => system (.foreign "UnsupportedOperation" [.text "not writable"])
  | false, v => system (.wrongType s!"write() argument must be str, not {v.typeName}")

def store (data : Value) (path mode encoding : String) : Run Nat := do
  let path := Path.withSlashes path
  let folder := Path.parent path
  let w ← get
  if !folder.isEmpty && !w.tree.exists? w.directory folder then makeDirectories folder
  let kind := if mode.toList.contains 'b' then "binary" else "text"
  note (.debug source s!"Storing {kind} file at {path}")
  match WriteMode.parse? mode with
  | none => system (.badValue s!"invalid mode: {Text.quote mode}")
  | some mode => do
    let (place, old) ← openFor mode path
    match Encoding.ofName? encoding with
    | none => if mode.binary then pure () else system (.unknownEncoding encoding)
    | some _ => pure ()
    if mode.access = .read then refuseWrite mode data
    let isAtStart := old.isEmpty || mode.access = .update
    match dataBytes mode ((Encoding.ofName? encoding).getD .utf8) isAtStart data with
    | .error f => system f
    | .ok (count, bs) => do
      putEntry place (.file (written mode.access old bs))
      pure count

def storeText (text path : String) : Run Unit :=
  (fun _ => ()) <$> store (.text text) path "w" "utf-8"

def storeBytes (data : List UInt8) (path : String) : Run Unit :=
  (fun _ => ()) <$> store (.bytes data) path "wb" "utf-8"

end Run
end FirmwareKit
