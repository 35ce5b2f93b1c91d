import FirmwareKit.Command.Outline
import FirmwareKit.Command.Parameter
import FirmwareKit.Identity
set_option autoImplicit false

namespace FirmwareKit.Catalog

def helpOption : Parameter := ⟨["--help"], .showsHelp, "Show this message and exit."⟩

def sourceFile : Parameter.Kind := .file true true

def resultFile : Parameter.Kind := .file false true

def configOption : Parameter :=
  ⟨["-c", "--config"], .takes sourceFile true, "Path to the YAML/JSON configuration file."⟩

def outputOption (help : String) : Parameter :=
  ⟨["-o", "--output"], .takes resultFile true, help⟩

def optional (name : String) (kind : Parameter.Kind) (help : String) : Parameter :=
  ⟨[name], .takes kind false, help⟩

def command (name summary : String) (parameters : List Parameter) (operands : Option Operands) :
    CommandSpec :=
  ⟨s!"{Identity.name} {name}", summary, parameters ++ [helpOption], operands, false⟩

def linkscriptName : String := "linkscript"
def bin2cName : String := "bin2c"
def layoutName : String := "layout"

def linkscript : CommandSpec :=
  command linkscriptName "Generate linker script from the memory layout configuration." [
    configOption,
    outputOption "Path to the generated linker script.",
    optional "--rom-start" .integer "ROM origin, overrides the configuration.",
    optional "--rom-length" .integer "ROM length, overrides the configuration.",
    optional "--depfile" resultFile
      "Path to a Makefile dependency file listing the configuration file."] none

def bin2c : CommandSpec :=
  command bin2cName "Embed binary files into a C source and header pair." [
    outputOption "Path to the generated C source file.",
    optional "--header" resultFile
      "Path to the generated C header file, defaults to the source path with .h extension.",
    optional "--align" .integer "Alignment of the arrays in bytes.",
    optional "--address-space" .text "Named address space of the arrays, e.g. __far.",
    optional "--prefix" .text "Prefix of the array names."]
    (some ⟨"INPUTS", .file true false⟩)

def layout : CommandSpec :=
  command layoutName "Print the normalized memory layout of the configuration." [configOption] none

def tool : CommandSpec :=
  ⟨Identity.name, "Collection of build utilities for WonderSwan firmware images.", [
    ⟨["-v", "--verbose"], .sets .info, "Print more detailed information"⟩,
    ⟨["-vv", "--debug"], .sets .debug, "Display more debugging information."⟩,
    ⟨["--version"], .showsVersion, "Show the version and exit."⟩,
    helpOption], none, true⟩

inductive Name where
  | linkscript
  | bin2c
  | layout
deriving DecidableEq, Repr

def Name.ofText? (name : String) : Option Name :=
  if name = linkscriptName then some .linkscript
  else if name = bin2cName then some .bin2c
  else if name = layoutName then some .layout
  else none

def Name.spec : Name → CommandSpec
  | .linkscript => Catalog.linkscript
  | .bin2c => Catalog.bin2c
  | .layout => Catalog.layout

def leaf (name : String) (c : CommandSpec) : CommandTree := .node name c.summary false []

def tree : CommandTree :=
  .node Identity.name tool.summary false
    [leaf linkscriptName linkscript, leaf bin2cName bin2c, leaf layoutName layout]

end FirmwareKit.Catalog
