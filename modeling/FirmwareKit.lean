import FirmwareKit.Log.Session
import FirmwareKit.Main
import FirmwareKit.Proofs.Sequence
import FirmwareKit.Proofs.Ending
import FirmwareKit.Proofs.Memory.Entry
import FirmwareKit.Proofs.Memory.Overlap
import FirmwareKit.Proofs.Memory.Canonical
import FirmwareKit.Proofs.Value.Entries
import FirmwareKit.Proofs.Value.Proper
import FirmwareKit.Proofs.Value.Address
import FirmwareKit.Proofs.Memory.Permutation
import FirmwareKit.Proofs.Memory.Containment
import FirmwareKit.Proofs.Memory.Rule
import FirmwareKit.Proofs.Memory.Verdict
import FirmwareKit.Proofs.Text.Integer
import FirmwareKit.Proofs.Text.Rows
import FirmwareKit.Proofs.Text.Legible
import FirmwareKit.Proofs.Numeral.DigitRun
import FirmwareKit.Proofs.Numeral.Suffixed
import FirmwareKit.Proofs.Numeral.Agreement
import FirmwareKit.Proofs.Script.Statements
import FirmwareKit.Proofs.Script.Addresses
import FirmwareKit.Proofs.Script.Bands
import FirmwareKit.Proofs.Script.Windows
import FirmwareKit.Proofs.Script.Ascending
import FirmwareKit.Proofs.Script.Names
import FirmwareKit.Proofs.Script.Composition
import FirmwareKit.Proofs.Script.Measures
import FirmwareKit.Proofs.Script.Symbols
import FirmwareKit.Proofs.Script.References
import FirmwareKit.Proofs.Script.Nesting
import FirmwareKit.Proofs.Script.Linking
import FirmwareKit.Proofs.Script.SymbolValues
import FirmwareKit.Proofs.Script.Glob
import FirmwareKit.Proofs.Script.Families
import FirmwareKit.Proofs.Script.Lines
import FirmwareKit.Proofs.Script.Routing
import FirmwareKit.Proofs.Script.Writing
import FirmwareKit.Proofs.Script.Reemission
import FirmwareKit.Proofs.Script.Numbers
import FirmwareKit.Proofs.Script.Constants
import FirmwareKit.Proofs.Script.Legible
import FirmwareKit.Proofs.Script.Lossless
import FirmwareKit.Proofs.Schema.Verdict
import FirmwareKit.Proofs.Schema.Validation
import FirmwareKit.Proofs.Config.Lookup
import FirmwareKit.Proofs.Config.Walk
import FirmwareKit.Proofs.Config.Home
import FirmwareKit.Proofs.Config.Addressing
import FirmwareKit.Proofs.Config.Verdict
import FirmwareKit.Proofs.Config.Outcome
import FirmwareKit.Proofs.Config.Parts
import FirmwareKit.Proofs.Config.Agreement
import FirmwareKit.Proofs.Config.Notation
import FirmwareKit.Proofs.Config.Conversion
import FirmwareKit.Proofs.Config.RomBounds
import FirmwareKit.Proofs.Config.NamedModel
import FirmwareKit.Proofs.Runs
import FirmwareKit.Proofs.Files.Tree
import FirmwareKit.Proofs.Files.Frame
import FirmwareKit.Proofs.Files.Inquiry
import FirmwareKit.Proofs.Files.Store
import FirmwareKit.Proofs.Files.Walk
import FirmwareKit.Proofs.Files.Apart
import FirmwareKit.Proofs.Files.Loading
import FirmwareKit.Proofs.Files.Parts
import FirmwareKit.Proofs.Files.Settled
import FirmwareKit.Proofs.Files.Finding
import FirmwareKit.Proofs.Build.Step
import FirmwareKit.Proofs.Build.Lifecycle
import FirmwareKit.Proofs.Build.Temporary
import FirmwareKit.Proofs.Build.Reading
import FirmwareKit.Proofs.Build.Rule
import FirmwareKit.Proofs.Build.Conversion
import FirmwareKit.Proofs.Build.Records
import FirmwareKit.Proofs.Schema.Frame
import FirmwareKit.Proofs.Schema.Growth
import FirmwareKit.Proofs.Schema.Walk
import FirmwareKit.Proofs.Schema.Program
import FirmwareKit.Proofs.Schema.Keyed
import FirmwareKit.Proofs.Schema.Unknown
import FirmwareKit.Proofs.Schema.Obstacles
import FirmwareKit.Proofs.Schema.Alternatives
import FirmwareKit.Proofs.Config.Validation
import FirmwareKit.Proofs.Yaml.Faults
import FirmwareKit.Proofs.Yaml.Making
import FirmwareKit.Proofs.Yaml.Reading
import FirmwareKit.Proofs.Config.Loading
import FirmwareKit.Proofs.Embed.Tokens
import FirmwareKit.Proofs.Embed.Reading
import FirmwareKit.Proofs.Embed.Lossless
import FirmwareKit.Proofs.Command.Declined
import FirmwareKit.Proofs.Command.Identifiers
import FirmwareKit.Proofs.Command.Results
import FirmwareKit.Proofs.Memory.Registers
import FirmwareKit.Proofs.Embed.Rows
import FirmwareKit.Proofs.Embed.Identifier
import FirmwareKit.Proofs.Files.Parents
import FirmwareKit.Proofs.Log.Handling
import FirmwareKit.Proofs.Log.DebugLog
import FirmwareKit.Proofs.Log.Installations
import FirmwareKit.Proofs.Text.Printable
import FirmwareKit.Proofs.Log.Colors
import FirmwareKit.Proofs.Log.Template
import FirmwareKit.Proofs.Command.Outline
import FirmwareKit.Proofs.Log.Plain
