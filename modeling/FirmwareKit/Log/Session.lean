import FirmwareKit.Identity
import FirmwareKit.Log.File
import FirmwareKit.Log.Record
set_option autoImplicit false

/-!
# Log sessions

A session hands each record to its handlers in order, those that are not set to a higher level. A
handler writes to a stream or to a file. Each installation adds a handler for a stream and one for
the debug log, unless the session has one for that file already.
-/
namespace FirmwareKit

inductive Handler.Sink where
  | stream (written : String)
  | file (log : LogFile)
deriving DecidableEq, Repr

structure Handler where
  level : Int
  isColored : Bool
  sink : Handler.Sink
deriving DecidableEq, Repr

structure Session where
  name : String
  level : Int
  handlers : List Handler
deriving DecidableEq, Repr

structure Surroundings where
  interpreter : String := ""
  system : String := ""
  command : List String := []
deriving DecidableEq, Repr

/-- What an installation asks for. Nothing is said about colours where `colored` is absent. -/
structure Installation where
  level : Int
  colored : Option Bool
  isTerminal : Bool
  isColorRefused : Bool
  debugLog : Option String
  surroundings : Surroundings := {}
deriving DecidableEq, Repr

namespace Handler

/-- The record once it has been made into a line: without colours its message is stripped. -/
def seen (h : Handler) (r : Record) : Record := if h.isColored then r else r.stripped

def accepts (h : Handler) (r : Record) : Bool := h.level ≤ r.level

def follow (h : Handler) (moves : List LogFile.Move) : Handler :=
  match h.sink with
  | .stream _ => h
  | .file f => { h with sink := .file (f.follow moves) }

def withFile (h : Handler) (f : LogFile) : Handler := { h with sink := .file f }

/-- What a handler has made of itself, of the record it leaves to the next, and of the files. -/
structure Emission where
  handler : Handler
  record : Record
  moves : List LogFile.Move

/-- A record that cannot be written is dropped. -/
def writeTo (h : Handler) (f : LogFile) (r : Record) : Run (Handler × Record) :=
  match r.line h.isColored with
  | .error _ => pure (h.withFile f, h.seen r)
  | .ok line => do
    let f ← f.append (line ++ "\n")
    pure (h.withFile f, h.seen r)

/-- The line is made once to see whether there is room for it, and again to be written. -/
def emitFile (h : Handler) (f : LogFile) (r : Record) : Run Emission := do
  let mayRotate := f.mayRotate (← get)
  let f ← f.opened
  if !f.stream.isOpen then pure ⟨h.withFile f, r, []⟩
  else if !mayRotate then do
    let (h, r) ← h.writeTo f r
    pure ⟨h, r, []⟩
  else match r.line h.isColored with
    | .error _ => pure ⟨h.withFile f, h.seen r, []⟩
    | .ok line => do
      if f.size (← get).tree + line.length + 1 < LogFile.greatestSize then do
        let (h, r) ← h.writeTo f (h.seen r)
        pure ⟨h, r, []⟩
      else do
        let (f, moves) ← f.rotate
        if !f.stream.isOpen then pure ⟨h.withFile f, h.seen r, moves⟩
        else do
          let (h, r) ← h.writeTo f (h.seen r)
          pure ⟨h, r, moves⟩

def emit (h : Handler) (r : Record) : Run Emission :=
  match h.sink with
  | .file f => h.emitFile f r
  | .stream written =>
    match r.line h.isColored with
    | .error _ => pure ⟨h, h.seen r, []⟩
    | .ok line => pure ⟨{ h with sink := .stream (written ++ line ++ "\n") }, h.seen r, []⟩

/-- Hands a record from handler to handler. What one of them moves, the others follow. -/
def handle (moves : List LogFile.Move) (r : Record) :
    List Handler → Run (List Handler × List LogFile.Move)
  | [] => pure ([], [])
  | h :: rest => do
    let h := h.follow moves
    if h.accepts r then do
      let e ← h.emit r
      let (rest, later) ← handle (moves ++ e.moves) e.record rest
      pure (e.handler.follow later :: rest, e.moves ++ later)
    else do
      let (rest, later) ← handle moves r rest
      pure (h.follow later :: rest, later)

end Handler

namespace Session

def fresh (name : String) : Session := ⟨name, 0, []⟩

def streams (s : Session) : List String :=
  s.handlers.filterMap fun h => match h.sink with
    | .stream written => some written
    | .file _ => none

def handle (s : Session) (r : Record) : Run Session := do
  let (handlers, _) ← Handler.handle [] r s.handlers
  pure { s with handlers }

def add (s : Session) (h : Handler) : Session := { s with handlers := s.handlers ++ [h] }

def say (s : Session) (level : Level) (message : String) : Run Session :=
  s.handle {
    level := level.number, source := s.name, message := .text message
    arguments := [], origin := none }

def bannerWidth : Nat := 55

def bannerEdge : String := String.ofList (List.replicate bannerWidth '*')

def bannerLine (text : String) : String :=
  String.ofList (Text.padRight (bannerWidth - 2) ' ' ("* " ++ text).toList) ++ " *"

def banner (date : String) (on : Surroundings) : List String :=
  [bannerEdge, s!"* WSWANTOOL DEBUG LOGGING STARTED {date} *",
    bannerLine s!"{Identity.name} version: {Identity.version}",
    bannerLine s!"Python version: {on.interpreter}",
    bannerLine s!"OS version: {on.system}",
    bannerLine ("Last command: " ++ (Value.list (on.command.map Value.text)).quoted), bannerEdge]

def sayAll (s : Session) (level : Level) : List String → Run Session
  | [] => pure s
  | m :: rest => do
    let s ← s.say level m
    sayAll s level rest

def isRefusal : SystemFault → Bool
  | .notDirectory _ | .isDirectory _ | .alreadyExists _ | .noSuchFile _ | .nameTooLong _ => true
  | _ => false

/-- Makes the directory of a log file and opens the file; gives the fault if it is refused. -/
def openDebugLog (path : String) : Run (Except SystemFault LogFile) := do
  let w ← get
  let whole := Path.absolute w.directoryPath path
  try
    Run.makeDirectories (Path.parent path)
    let place ← Run.openLog whole
    pure (.ok ⟨whole, .standing place⟩)
  catch
    | .system f => if isRefusal f then pure (.error f) else throw (.system f)
    | f => throw f

def defaultLevel : Int := Level.warning.number

def isColored (i : Installation) : Bool :=
  match i.colored with
  | some c => c
  | none => i.isTerminal && !i.isColorRefused

def hasLog (s : Session) (path : String) : Bool :=
  s.handlers.any fun h => match h.sink with
    | .stream _ => false
    | .file f => f.path == path

def installDebugLog (s : Session) (path date : String) (on : Surroundings) : Run Session := do
  if s.hasLog path then return s
  match ← openDebugLog path with
  | .error f => s.say .warning s!"Failed to initialize debug logging: {f.message}"
  | .ok log =>
    let s := s.add ⟨Level.debug.number, false, .file log⟩
    s.sayAll .debug (banner date on)

/-- Adds the handlers of an installation. From then on the session takes messages of all levels
from debugging on. -/
def install (s : Session) (i : Installation) (date : String) : Run Session := do
  let level := if i.level = 0 then defaultLevel else i.level
  let s := { s with level := (Level.debug.number : Int) }
  let s := s.add ⟨level, isColored i, .stream ""⟩
  match i.debugLog with
  | none => pure s
  | some path => s.installDebugLog path date i.surroundings

end Session
end FirmwareKit
