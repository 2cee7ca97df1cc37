import Unstack.Annotation
import Unstack.Builtin.Definition
import Unstack.Builtin.Overlay
import Unstack.Builtin.Registry
import Unstack.Builtin.Signature
import Unstack.Builtin.Standard
import Unstack.Command
import Unstack.CommandLine.Host
import Unstack.CommandLine.Program
import Unstack.CommandLine.Request
import Unstack.Data.Basic
import Unstack.Data.Shape
import Unstack.Decompile
import Unstack.Draft
import Unstack.Event
import Unstack.Expr
import Unstack.Fault
import Unstack.FileSystem.Basic
import Unstack.FileSystem.Path
import Unstack.Instr
import Unstack.Main
import Unstack.Operand
import Unstack.Operator
import Unstack.Proofs.Command.Checks
import Unstack.Proofs.Command.Reading
import Unstack.Proofs.Draft.Counting
import Unstack.Proofs.Draft.Meaning
import Unstack.Proofs.Draft.Outline
import Unstack.Proofs.Draft.Step
import Unstack.Proofs.Draft.Tally
import Unstack.Proofs.Draft.WellFormed
import Unstack.Proofs.Script.Acceptance
import Unstack.Proofs.Script.Conservation
import Unstack.Proofs.Script.Live
import Unstack.Proofs.Script.Representation
import Unstack.Proofs.Table
import Unstack.Pseudocode.Binding
import Unstack.Pseudocode.Expr
import Unstack.Pseudocode.Layout
import Unstack.Script
import Unstack.Table
import Unstack.Text.Blank
import Unstack.Text.Hex
import Unstack.Text.Quoted
import Unstack.Text.Split
import Unstack.Toml.Document
import Unstack.Toml.Node
import Unstack.Toml.Quoted
import Unstack.Toml.Reader
import Unstack.Toml.Scalar
import Unstack.Toml.Value
import Unstack.Proofs.Draft.Targets
import Unstack.Proofs.Pseudocode.Blocks
import Unstack.Proofs.Text.Hex
import Unstack.Proofs.Pseudocode.Markers
import Unstack.Proofs.Draft.Postfix
import Unstack.Proofs.Draft.Relocation
import Unstack.Proofs.Script.Relocation
import Unstack.Proofs.Script.Padding
import Unstack.Proofs.Pseudocode.Relocation
import Unstack.Proofs.Draft.Dropped
import Unstack.Proofs.Pseudocode.Naming
import Unstack.Proofs.Pseudocode.Arguments
import Unstack.Proofs.Pseudocode.Texts
import Unstack.Proofs.Pseudocode.LastCall
import Unstack.Proofs.Annotation
import Unstack.Proofs.Pseudocode.Registries
import Unstack.Proofs.Text.Split
import Unstack.Proofs.Text.Lines
import Unstack.Proofs.CommandLine.Actions
import Unstack.Proofs.CommandLine.Turns
import Unstack.Proofs.CommandLine.Batch
import Unstack.Proofs.FileSystem.Path
import Unstack.Proofs.FileSystem.Basic
import Unstack.Proofs.FileSystem.MakeDirs
import Unstack.Proofs.CommandLine.Outputs
import Unstack.Proofs.Pseudocode.Decoding
import Unstack.Proofs.Pseudocode.Guard
import Unstack.Proofs.Pseudocode.Parameters
import Unstack.Proofs.Script.Resolution
import Unstack.Proofs.Draft.Frame
import Unstack.Proofs.Script.Brackets
import Unstack.Proofs.Pseudocode.Accounting
import Unstack.Proofs.Script.Listing
import Unstack.Proofs.Text.Trim
import Unstack.Proofs.Text.Utf8
import Unstack.Proofs.Annotation.Lines
import Unstack.Proofs.Builtin.Written
import Unstack.Proofs.Builtin.Entries
import Unstack.Proofs.Builtin.Changes
import Unstack.Proofs.CommandLine.Atomicity
import Unstack.Proofs.Operand
import Unstack.Proofs.Spacing
import Unstack.Proofs.Text.Spacing
import Unstack.Proofs.Data.Spelling
