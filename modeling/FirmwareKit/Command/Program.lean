import FirmwareKit.Build.Step
import FirmwareKit.Command.Catalog
import FirmwareKit.Command.Outcome
import FirmwareKit.Command.Settings
import FirmwareKit.Command.Usage
import FirmwareKit.Config.Link
import FirmwareKit.Embed.Arrays
import FirmwareKit.Log.Record
set_option autoImplicit false

namespace FirmwareKit.Program

/-- What a run cannot know by itself: the date that generated files carry, and what to say about
the origin of a message. -/
structure Surroundings where
  date : String
  origin : String

def linkscript (date config output : String) (romStart romLength : Option Int)
    (rulePath : Option String) : Build Unit := do
  Build.access config "r"
  let script ← Build.within do
    let c ← Run.loadConfig config
    let l ← LinkConfig.load c romStart romLength
    l.script date
  Build.within (Run.storeText script output)
  Build.access output "w"
  match rulePath with
  | some path => Build.writeRule path none
  | none => pure ()

structure Embedding where
  output : String
  header : String
  alignment : Option Int
  addressSpace : Option String
  lead : String
  inputs : List String
deriving DecidableEq, Repr

def array (e : Embedding) (known : List Embed.ByteArray) (input : String) :
    Build Embed.ByteArray := do
  let name ← Build.ofExcept ((Reference.file input).symbol e.lead)
  if known.any fun a => a.name == name then throw (.duplicateArray name input)
  let data ← Build.toData (.file input)
  pure ⟨name, data, e.alignment, e.addressSpace⟩

def arrays (e : Embedding) (known : List Embed.ByteArray) : List String →
    Build (List Embed.ByteArray)
  | [] => pure known
  | input :: rest => do
    let a ← array e known input
    arrays e (known ++ [a]) rest

def embed (date : String) (e : Embedding) : Build Nat := do
  let as ← arrays e [] e.inputs
  let (source, header) ← Build.within (Run.embed Identity.name date as)
  Build.within (Run.storeText source e.output)
  Build.within (Run.storeText header e.header)
  pure as.length

def step {α : Type} (work : Build α) : Run α :=
  Prod.fst <$> (Build.whole work).run (BuildContext.ofDirectory? none)

def runLinkscript (date : String) (s : Settings) : Run String := do
  let output := (s.text? "--output").getD ""
  step (linkscript date ((s.text? "--config").getD "") output (s.integer? "--rom-start")
    (s.integer? "--rom-length") (s.text? "--depfile"))
  pure s!"Linker script has been written to '{Path.withSlashes output}'\n"

/-- The header stands beside the source unless it is named. -/
def embedding (s : Settings) : Embedding :=
  let output := (s.text? "--output").getD ""
  { output
    header := (s.text? "--header").getD ((Path.splitExtension output).1 ++ ".h")
    alignment := s.integer? "--align"
    addressSpace := s.text? "--address-space"
    lead := (s.text? "--prefix").getD ""
    inputs := s.operands }

def checkAlignment (e : Embedding) : Run Unit :=
  match e.alignment with
  | some n => if n ≤ 0 then Run.fail (.alignmentNotPositive n) else pure ()
  | none => pure ()

def runBin2c (date : String) (s : Settings) : Run String := do
  let e := embedding s
  checkAlignment e
  let count ← step (embed date e)
  pure (s!"Embedded {count} file(s) into '{Path.withSlashes e.output}' "
    ++ s!"and '{Path.withSlashes e.header}'\n")

def runLayout (s : Settings) : Run String := do
  let c ← Run.loadConfig ((s.text? "--config").getD "")
  let l ← LinkConfig.load c none none
  pure (l.layout.render ++ "\n")

def work (date : String) (s : Settings) : Catalog.Name → Run String
  | .linkscript => runLinkscript date s
  | .bin2c => runBin2c date s
  | .layout => runLayout s

def usageCode : Int := 2

def versionText : String := s!"{Identity.name}, version {Identity.version}\n"

def toolHelp : String := Usage.help Catalog.tool (some Catalog.tree.outline)

def helpOf (c : CommandSpec) : String := if c.isGroup then toolHelp else Usage.help c none

def helpWanted (c : CommandSpec) : Outcome := ⟨.int usageCode, "", helpOf c, none⟩

def complaint (c : CommandSpec) (f : UsageFault) : Outcome :=
  ⟨.int usageCode, "", Usage.complaint c f, none⟩

def ofFault (f : Fault) : Outcome :=
  match Outcome.ofFault none f with
  | .ok o => o
  | .error _ => .ended (.int Outcome.unexpectedCode)

def ofRefusal (c : CommandSpec) : Settings.Refusal → Outcome
  | .usage f => complaint c f
  | .help => .success (helpOf c)
  | .version => .success versionText
  | .fault f => ofFault f

def runCommand (date : String) (name : Catalog.Name) (arguments : List String) (w : Workspace) :
    Outcome × Workspace :=
  if arguments.isEmpty then (helpWanted name.spec, w)
  else match Settings.ofArguments w name.spec arguments with
    | .error r => (ofRefusal name.spec r, w)
    | .ok s =>
      match work date s name w with
      | .ok text w => (.success text, w)
      | .error f w => (ofFault f, w)

/-- A name that is no command may still ask something of the tool. -/
def unknownCommand (w : Workspace) (name : String) (arguments : List String) : Outcome :=
  match Settings.ofArguments w Catalog.tool (name :: arguments) with
  | .error r => ofRefusal Catalog.tool r
  | .ok _ => complaint Catalog.tool (.noSuchCommand name)

def logText (x : Surroundings) (least : Level) (notes : List Note) : String :=
  String.join ((notes.filter fun n => least.number ≤ n.level.number).map fun n =>
    match (Record.ofNote n (some x.origin)).line false with
    | .ok line => line ++ "\n"
    | .error _ => "")

def withLog (x : Surroundings) (least : Level) (notes : List Note) (o : Outcome) : Outcome :=
  { o with errors := logText x least notes ++ o.errors ++ logText x least o.note.toList }

def level (arguments : List String) : Level :=
  match Arguments.read Catalog.tool arguments with
  | .ok a => (Settings.level? a).getD .warning
  | .error _ => .warning

def run (x : Surroundings) (arguments : List String) (w : Workspace) : Outcome × Workspace :=
  if arguments.isEmpty then (helpWanted Catalog.tool, w)
  else match Settings.ofArguments w Catalog.tool arguments with
    | .error r => (ofRefusal Catalog.tool r, w)
    | .ok s =>
      match s.operands with
      | [] => (complaint Catalog.tool .missingCommand, w)
      | name :: rest =>
        match Catalog.Name.ofText? name with
        | none => (unknownCommand w name rest, w)
        | some command =>
          let (o, w) := runCommand x.date command rest w
          (withLog x (level arguments) w.notes o, w)

end FirmwareKit.Program
