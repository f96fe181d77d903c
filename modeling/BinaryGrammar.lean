import BinaryGrammar.CommandLine.Arguments
import BinaryGrammar.CommandLine.Check
import BinaryGrammar.CommandLine.Decode
import BinaryGrammar.CommandLine.Report
import BinaryGrammar.Decode.Bytes
import BinaryGrammar.Decode.Context
import BinaryGrammar.Decode.Decoder
import BinaryGrammar.Decode.Element
import BinaryGrammar.Decode.Failure
import BinaryGrammar.Decode.Field
import BinaryGrammar.Decode.Match
import BinaryGrammar.Decode.Structure
import BinaryGrammar.Diagnostic
import BinaryGrammar.Document.Basic
import BinaryGrammar.Document.Build
import BinaryGrammar.Document.Derive
import BinaryGrammar.Document.Extend
import BinaryGrammar.Document.Load
import BinaryGrammar.Document.Recursion
import BinaryGrammar.Document.Register
import BinaryGrammar.Document.Resolve
import BinaryGrammar.Document.Validate
import BinaryGrammar.Element.Attribute
import BinaryGrammar.Element.Basic
import BinaryGrammar.Element.Kind
import BinaryGrammar.Element.Literal
import BinaryGrammar.Expression
import BinaryGrammar.Formula.Basic
import BinaryGrammar.Formula.Eval
import BinaryGrammar.Formula.Parser
import BinaryGrammar.Formula.Token
import BinaryGrammar.Json.Basic
import BinaryGrammar.Json.Number
import BinaryGrammar.Json.Printer
import BinaryGrammar.Json.Reader
import BinaryGrammar.Main
import BinaryGrammar.Number.Binary64
import BinaryGrammar.Number.Digits
import BinaryGrammar.Number.Integer
import BinaryGrammar.Number.Shortest
import BinaryGrammar.Number.Word
import BinaryGrammar.Record.Basic
import BinaryGrammar.Record.Reader
import BinaryGrammar.Record.Writer
import BinaryGrammar.Reference
import BinaryGrammar.Render.Json
import BinaryGrammar.Render.Line
import BinaryGrammar.Render.Tree
import BinaryGrammar.Script.Command
import BinaryGrammar.Script.Engine
import BinaryGrammar.Source
import BinaryGrammar.Text.Blank
import BinaryGrammar.Text.Encoding
import BinaryGrammar.Text.Hex
import BinaryGrammar.Text.Hidden
import BinaryGrammar.Text.Quoted
import BinaryGrammar.Value
import BinaryGrammar.Proofs.Conformance
import BinaryGrammar.Proofs.Constant
import BinaryGrammar.Proofs.FixedLength
import BinaryGrammar.Proofs.Bits
import BinaryGrammar.Proofs.Payload
import BinaryGrammar.Proofs.Scope
import BinaryGrammar.Proofs.OwnLength
import BinaryGrammar.Proofs.Linking
import BinaryGrammar.Proofs.Blame
import BinaryGrammar.Proofs.Overflow
import BinaryGrammar.Proofs.Independence
import BinaryGrammar.Proofs.Reentry
import BinaryGrammar.Proofs.BaseOrder
import BinaryGrammar.Proofs.Inheritance
import BinaryGrammar.Proofs.Phases
import BinaryGrammar.Proofs.Termination
import BinaryGrammar.Proofs.Failing
import BinaryGrammar.Proofs.Salvage
import BinaryGrammar.Proofs.Cycles
import BinaryGrammar.Proofs.Gaps
import BinaryGrammar.Proofs.Walk
import BinaryGrammar.Proofs.Forest
import BinaryGrammar.Proofs.Registration
import BinaryGrammar.Proofs.References
import BinaryGrammar.Proofs.Exactness
import BinaryGrammar.Proofs.Numeral
import BinaryGrammar.Proofs.Lexing
import BinaryGrammar.Proofs.Precedence
import BinaryGrammar.Proofs.Rendering
import BinaryGrammar.Proofs.Literal
import BinaryGrammar.Proofs.JsonText
import BinaryGrammar.Proofs.RecordText
import BinaryGrammar.Proofs.Extending
import BinaryGrammar.Proofs.Taking
import BinaryGrammar.Proofs.Scanning
import BinaryGrammar.Proofs.Packing
import BinaryGrammar.Proofs.Transcoding
import BinaryGrammar.Proofs.Framing
import BinaryGrammar.Proofs.Spelling
import BinaryGrammar.Proofs.Recursion
import BinaryGrammar.Proofs.Lookup
import BinaryGrammar.Proofs.Meaning
import BinaryGrammar.Proofs.Accounting
