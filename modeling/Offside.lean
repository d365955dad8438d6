import Offside.CommandLine.FileTree
import Offside.CommandLine.Options
import Offside.CommandLine.Path
import Offside.CommandLine.Run
import Offside.Compile
import Offside.Diagnostic
import Offside.Lowering
import Offside.Main
import Offside.Number.Binary64
import Offside.Number.Integer
import Offside.Operator
import Offside.Position
import Offside.Proofs.Alike
import Offside.Proofs.Caret
import Offside.Proofs.Located
import Offside.Proofs.Lowering.Accepted
import Offside.Proofs.Lowering.Alike
import Offside.Proofs.Lowering.Assembly
import Offside.Proofs.Lowering.Building
import Offside.Proofs.Lowering.Indices
import Offside.Proofs.Lowering.Meaning
import Offside.Proofs.Lowering.Nodes
import Offside.Proofs.Lowering.Returns
import Offside.Proofs.Number.Exact
import Offside.Proofs.PhysicalLines
import Offside.Proofs.Semantics.Keeps
import Offside.Proofs.Semantics.Machine
import Offside.Proofs.Semantics.Sound
import Offside.Proofs.Semantics.Source
import Offside.Proofs.Sequence
import Offside.Proofs.Surface.Accept
import Offside.Proofs.Surface.Alike
import Offside.Proofs.Surface.FilledBlocks
import Offside.Proofs.Surface.MinusSigns
import Offside.Proofs.Surface.Phrase
import Offside.Proofs.Surface.Print
import Offside.Proofs.Surface.ReadAlike
import Offside.Proofs.Surface.ReadBack
import Offside.Proofs.Surface.Recognise
import Offside.Proofs.Surface.RoundTrip
import Offside.Proofs.Surface.Sentence
import Offside.Proofs.Surface.Spelling
import Offside.Proofs.Surface.Strata
import Offside.Proofs.Surface.Taken
import Offside.Proofs.Surface.Variables
import Offside.Proofs.Surface.Walk
import Offside.Proofs.Surface.WalkEnds
import Offside.Proofs.Termination
import Offside.Proofs.Token.Alike
import Offside.Proofs.Token.BlankLines
import Offside.Proofs.Token.Escapes
import Offside.Proofs.Token.Indentation
import Offside.Proofs.Token.Layout
import Offside.Proofs.Token.LineEnds
import Offside.Proofs.Token.Located
import Offside.Proofs.Token.Lookahead
import Offside.Proofs.Token.Move
import Offside.Proofs.Token.Numeral
import Offside.Proofs.Token.Piece
import Offside.Proofs.Token.Stream
import Offside.Proofs.Token.Tiling
import Offside.Proofs.Typed.Alike
import Offside.Proofs.Typed.Checked
import Offside.Proofs.Typed.Declared
import Offside.Proofs.Typed.Faithful
import Offside.Proofs.Typed.Reorder
import Offside.Proofs.Typed.Typable
import Offside.Proofs.Typed.WellTyped
import Offside.Proofs.Validity
import Offside.Proofs.Wasm.Decode
import Offside.Proofs.Wasm.OpenFrames
import Offside.Proofs.Wasm.Runs
import Offside.Proofs.Wasm.ShortestForm
import Offside.Proofs.Wasm.StackCheck
import Offside.Proofs.Wasm.Structured
import Offside.Proofs.Wasm.Typing
import Offside.Report
import Offside.Signature
import Offside.Surface
import Offside.Surface.Cursor
import Offside.Surface.Definition
import Offside.Surface.Expression
import Offside.Surface.Grammar
import Offside.Surface.Reading
import Offside.Surface.Statement
import Offside.Text.Invisible
import Offside.Text.Utf8
import Offside.Token
import Offside.Token.Lexeme
import Offside.Token.Literal
import Offside.Token.Scan
import Offside.Typed
import Offside.Typed.Check
import Offside.Typed.Scope
import Offside.Wasm.Binary
import Offside.Wasm.Instr
import Offside.Wasm.Leb128
import Offside.Wasm.Module
import Offside.Wasm.OperandStack
