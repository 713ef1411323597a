import CellScript.Tree
import CellScript.Integer
import CellScript.Real.Format
import CellScript.Text.Quoted

/-! Tree listings: one node a line, two blanks of indentation a level, `Kind attributes @line:col`.
Parts that are missing are left out. -/
namespace CellScript.Outline

def indent (depth : Nat) : Text := List.replicate (2 * depth) 32

/-- A line for a node. Empty attributes and a zero span are left out. -/
def node (depth : Nat) (kind : String) (attributes : List Text) (span : Span) : Text :=
  let words := attributes.filter (!·.isEmpty)
  indent depth ++ utf8 kind ++ words.flatMap (32 :: ·) ++
    (if span.isZero then [] else utf8 " @" ++ span.text) ++ [10]

def label (depth : Nat) (text : String) : Text := indent depth ++ utf8 text ++ [10]

/-- The operators of an expression in brackets. -/
def operatorRun (ops : List (Word BinaryOp)) : Text :=
  if ops.isEmpty then [] else byte '[' :: Text.join [32] (ops.map (·.text)) ++ [byte ']']

def typeTest (test : Option (Word TypeName)) : Text :=
  match test with
  | some t => utf8 "is " ++ t.text
  | none => []

def parameters (params : List Text) : Text :=
  byte '(' :: Text.join (utf8 ", ") params ++ [byte ')']

mutual

def expr (depth : Nat) : Expr → Text
  | .missing => []
  | .mk span operands operators =>
    node depth "Expression" [operatorRun operators] span ++ operandList (depth + 1) operands

def exprs (depth : Nat) : List Expr → Text
  | [] => []
  | e :: es => expr depth e ++ exprs depth es

def operand (depth : Nat) : Operand → Text
  | .mk span op p test =>
    node depth "Unary" [Word.optionalText op, typeTest test] span ++ primary (depth + 1) p

def operandList (depth : Nat) : List Operand → Text
  | [] => []
  | x :: xs => operand depth x ++ operandList depth xs

def primary (depth : Nat) : Primary → Text
  | .read span kind => node depth "Primary" [kind.text] span
  | .ref span name ts =>
    node depth "Primary" [utf8 "variable", name] span ++ tails (depth + 1) ts
  | .literal span value => node depth "Primary" [utf8 "literal"] span ++ literal (depth + 1) value
  | .paren span inner => node depth "Primary" [utf8 "parenthesized"] span ++ expr (depth + 1) inner

def tail (depth : Nat) : Tail → Text
  | .index span i => node depth "Tail" [utf8 "tupleIndex", Integer.text i] span
  | .field span name => node depth "Tail" [utf8 "tupleName", name] span
  | .subscript span key => node depth "Tail" [utf8 "subscript"] span ++ expr (depth + 1) key
  | .call span arguments => node depth "Tail" [utf8 "call"] span ++ exprs (depth + 1) arguments

def tails (depth : Nat) : List Tail → Text
  | [] => []
  | t :: ts => tail depth t ++ tails depth ts

def literal (depth : Nat) : Literal → Text
  | .missing => []
  | .integer span n => node depth "IntegerLiteral" [Integer.text n] span
  | .real span x => node depth "RealLiteral" [Real.listed.write x] span
  | .boolean span b => node depth "BooleanLiteral" [utf8 (if b then "true" else "false")] span
  | .string span s => node depth "StringLiteral" [s.quoted] span
  | .empty span => node depth "EmptyLiteral" [] span
  | .array span elements => node depth "ArrayLiteral" [] span ++ exprs (depth + 1) elements
  | .tuple span elems => node depth "TupleLiteral" [] span ++ elements (depth + 1) elems
  | .function span params b =>
    node depth "FunctionLiteral" [parameters params] span ++ body (depth + 1) b
  | .lambda span params result =>
    node depth "FunctionLiteral" [parameters params] span ++ expr (depth + 1) result

def element (depth : Nat) : Element → Text
  | .mk span name value => node depth "TupleElement" [name] span ++ expr (depth + 1) value

def elements (depth : Nat) : List Element → Text
  | [] => []
  | e :: es => element depth e ++ elements depth es

def statement (depth : Nat) : Statement → Text
  | .declare span name initial => node depth "Declaration" [name] span ++ expr (depth + 1) initial
  | .assign span target op value =>
    node depth "Assignment" [Word.optionalText op] span ++ primary (depth + 1) target ++
      expr (depth + 1) value
  | .branch span condition yes no =>
    node depth "If" [] span ++ expr (depth + 1) condition ++ label (depth + 1) "then:" ++
      body (depth + 2) yes ++
      (if no.isMissing then [] else label (depth + 1) "else:" ++ body (depth + 2) no)
  | .forLoop span counter low high b =>
    node depth "For" [counter] span ++ expr (depth + 1) low ++ expr (depth + 1) high ++
      body (depth + 1) b
  | .whileLoop span condition b =>
    node depth "While" [] span ++ expr (depth + 1) condition ++ body (depth + 1) b
  | .print span arguments => node depth "Print" [] span ++ exprs (depth + 1) arguments
  | .ret span value => node depth "Return" [] span ++ expr (depth + 1) value
  | .brk span => node depth "Break" [] span
  | .cont span => node depth "Continue" [] span
  | .block b => body depth b

def statementList (depth : Nat) : List Statement → Text
  | [] => []
  | s :: ss => statement depth s ++ statementList depth ss

def body (depth : Nat) : Body → Text
  | .missing => []
  | .mk span statements _ => node depth "Body" [] span ++ statementList (depth + 1) statements

end

end CellScript.Outline

namespace CellScript

def Program.outline (p : Program) : Text :=
  Outline.node 0 "Program" [] p.span ++ Outline.body 1 p.body

end CellScript
