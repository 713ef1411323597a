import CellScript.Text.Blank
import CellScript.Text.Case
import CellScript.Token.Lexer
import CellScript.Real.Format
import CellScript.Real.Reading
import CellScript.Tree.Outline
import CellScript.Tree.Encoding
import CellScript.Tree.Decoding
import CellScript.Parser
import CellScript.Check
import CellScript.Eval
import CellScript.Optimize
import CellScript.Session
import CellScript.Repl
import CellScript.CommandLine
import CellScript.Main
import CellScript.Text.Units
import CellScript.Yaml.Cursor
import CellScript.Yaml.Token
import CellScript.Yaml.Lexer
import CellScript.Yaml.Node
import CellScript.Proofs.Optimize.Behaviour
import CellScript.Proofs.Discipline
import CellScript.Proofs.Checking.ControlFlow
import CellScript.Proofs.Checking.Names
import CellScript.Proofs.Checking.Lexical
import CellScript.Proofs.Parsing.Completion
import CellScript.Proofs.Parsing.Image
import CellScript.Proofs.Tree.RoundTrip
import CellScript.Proofs.Sessions
import CellScript.Proofs.Shape.Faults
import CellScript.Proofs.Ownership
import CellScript.Proofs.Captures
import CellScript.Proofs.Printing
import CellScript.Proofs.Pieces
import CellScript.Proofs.CallSites
import CellScript.Proofs.Precedence
import CellScript.Proofs.Optimize.Checking
import CellScript.Proofs.Optimize.Settling
import CellScript.Proofs.Arrays
import CellScript.Proofs.Tuples
import CellScript.Proofs.Lexing.Tiling
import CellScript.Proofs.Lexing.Respacing
import CellScript.Proofs.Parsing.Spans
import CellScript.Proofs.Arrays.Writing
import CellScript.Proofs.Counting
import CellScript.Proofs.Rendering
import CellScript.Proofs.Checking.Order
import CellScript.Proofs.Strings
import CellScript.Proofs.Scopes
import CellScript.Proofs.Parsing.Positions
import CellScript.Proofs.Repl.Input
