import CellScript.Integer
import CellScript.Json.Codec
import CellScript.Real.Format
import CellScript.Tree

/-! Trees as JSON. Every node carries its type and its span; parts that are empty, zero or missing
are left out where the format allows it. A tree with a real that is not finite has no JSON. -/
namespace CellScript.Encoding

/-- How a tree came about, which shows in its lists without items. -/
inductive Origin where
  /-- A parsed tree has no list there. -/
  | parsed
  /-- A tree that was itself written as JSON has empty lists. -/
  | decoded
  /-- A tree put together by hand has empty lists of statements and of parameters, and no others. -/
  | built
deriving DecidableEq, Repr

def int (n : Int) : Json := .number (Text.ofInt n)

def position (p : Position) : Json :=
  .object [(utf8 "line", int p.line), (utf8 "column", int p.column)]

def span (s : Span) : Json :=
  .object [(utf8 "start", position s.start), (utf8 "end", position s.stop)]

/-- A node: its type, its span and its parts, of which those without a value are left out. -/
def node (type : String) (s : Span) (parts : List (String × Option Json)) : Json :=
  .object ((utf8 "type", .string (utf8 type)) :: (utf8 "span", span s) ::
    parts.filterMap fun (name, value) => value.map fun v => (utf8 name, v))

/-- A text that is left out when empty. -/
def textPart (t : Text) : Option Json := if t.isEmpty then none else some (.string t)

/-- A list that is left out when empty. -/
def listPart (items : List Json) : Option Json :=
  if items.isEmpty then none else some (.array items)

def list (o : Origin) (items : List Json) : Json :=
  if items.isEmpty && o ≠ .decoded then .null else .array items

/-- A list of statements or parameters, which is always written. If its items were taken out, it
is an empty one. -/
def sequence (o : Origin) (cleared : Bool) (items : List Json) : Json :=
  if items.isEmpty && o = .parsed && !cleared then .null else .array items

/-- A part that is left out when it is missing. -/
def optional (j : Json) : Option Json := if j.isNull then none else some j

/-- The JSON of a real, which has to be finite. -/
def real (x : Float) : Option Json :=
  if Real.isFinite x then some (.number (Real.serial.write x)) else none

mutual

def expr (o : Origin) : Expr → Option Json
  | .missing => some .null
  | .mk s xs ops => do
    let xs ← operands o xs
    return node "Expression" s [("operands", some (list o xs)),
      ("operators", listPart (ops.map fun op => .string op.text))]

def exprs (o : Origin) : List Expr → Option (List Json)
  | [] => some []
  | x :: xs => do return (← expr o x) :: (← exprs o xs)

def operand (o : Origin) : Operand → Option Json
  | .mk s op p test => do
    let p ← primary o p
    return node "Unary" s [("operator", textPart (Word.optionalText op)), ("primary", some p),
      ("typeTest", textPart (Word.optionalText test))]

def operands (o : Origin) : List Operand → Option (List Json)
  | [] => some []
  | x :: xs => do return (← operand o x) :: (← operands o xs)

def primary (o : Origin) : Primary → Option Json
  | .read s kind => some (node "Primary" s [("kind", some (.string kind.text))])
  | .ref s name ts => do
    let ts ← tails o ts
    return node "Primary" s [("kind", some (.string (utf8 "variable"))), ("name", textPart name),
      ("tails", listPart ts)]
  | .literal s l => do
    let l ← literal o l
    return node "Primary" s [("kind", some (.string (utf8 "literal"))), ("literal", optional l)]
  | .paren s inner => do
    let inner ← expr o inner
    return node "Primary" s [("kind", some (.string (utf8 "parenthesized"))),
      ("inner", optional inner)]

def tail (o : Origin) : Tail → Option Json
  | .index s i =>
    some (node "Tail" s [("kind", some (.string (utf8 "tupleIndex"))),
      ("index", if i = 0 then none else some (.number (Integer.text i)))])
  | .field s name =>
    some (node "Tail" s [("kind", some (.string (utf8 "tupleName"))), ("name", textPart name)])
  | .subscript s key => do
    let key ← expr o key
    return node "Tail" s [("kind", some (.string (utf8 "subscript"))), ("subscript", optional key)]
  | .call s arguments => do
    let arguments ← exprs o arguments
    return node "Tail" s [("kind", some (.string (utf8 "call"))), ("arguments", listPart arguments)]

def tails (o : Origin) : List Tail → Option (List Json)
  | [] => some []
  | t :: ts => do return (← tail o t) :: (← tails o ts)

def literal (o : Origin) : Literal → Option Json
  | .missing => some .null
  | .integer s n => some (node "IntegerLiteral" s [("value", some (.number (Integer.text n)))])
  | .real s x => do
    let x ← real x
    return node "RealLiteral" s [("value", some x)]
  | .boolean s b => some (node "BooleanLiteral" s [("value", some (.bool b))])
  | .string s t => some (node "StringLiteral" s [("value", some (.string t))])
  | .empty s => some (node "EmptyLiteral" s [])
  | .array s xs => do
    let xs ← exprs o xs
    return node "ArrayLiteral" s [("elements", some (list o xs))]
  | .tuple s xs => do
    let xs ← elements o xs
    return node "TupleLiteral" s [("elements", some (list o xs))]
  | .function s params b => do
    let b ← body o b
    return node "FunctionLiteral" s [("params", some (sequence o false (params.map .string))),
      ("body", optional b)]
  | .lambda s params result => do
    let result ← expr o result
    return node "FunctionLiteral" s [("params", some (sequence o false (params.map .string))),
      ("exprBody", optional result)]

def element (o : Origin) : Element → Option Json
  | .mk s name value => do
    let value ← expr o value
    return node "TupleElement" s [("name", textPart name), ("value", some value)]

def elements (o : Origin) : List Element → Option (List Json)
  | [] => some []
  | x :: xs => do return (← element o x) :: (← elements o xs)

def statement (o : Origin) : Statement → Option Json
  | .declare s name initial => do
    let initial ← expr o initial
    return node "Declaration" s [("name", some (.string name)), ("initializer", optional initial)]
  | .assign s target op value => do
    let target ← primary o target
    let value ← expr o value
    return node "Assignment" s [("target", some target),
      ("operator", textPart (Word.optionalText op)), ("value", optional value)]
  | .branch s condition yes no => do
    let condition ← expr o condition
    let yes ← body o yes
    let no ← body o no
    return node "If" s [("condition", some condition), ("then", some yes), ("else", optional no)]
  | .forLoop s counter low high b => do
    let low ← expr o low
    let high ← expr o high
    let b ← body o b
    return node "For" s [("variable", some (.string counter)), ("low", some low),
      ("high", some high), ("body", some b)]
  | .whileLoop s condition b => do
    let condition ← expr o condition
    let b ← body o b
    return node "While" s [("condition", some condition), ("body", some b)]
  | .print s arguments => do
    let arguments ← exprs o arguments
    return node "Print" s [("arguments", some (list o arguments))]
  | .ret s value => do
    let value ← expr o value
    return node "Return" s [("value", optional value)]
  | .brk s => some (node "Break" s [])
  | .cont s => some (node "Continue" s [])
  | .block b => body o b

def statements (o : Origin) : List Statement → Option (List Json)
  | [] => some []
  | x :: xs => do return (← statement o x) :: (← statements o xs)

def body (o : Origin) : Body → Option Json
  | .missing => some .null
  | .mk s ss cleared => do
    let ss ← statements o ss
    return node "Body" s [("statements", some (sequence o cleared ss))]

end

end CellScript.Encoding

namespace CellScript.Program

def toJson? (o : Encoding.Origin) (p : Program) : Option Json := do
  let body ← Encoding.body o p.body
  return Encoding.node "Program" p.span [("body", some body)]

def encodeWith? (c : Json.Codec) (o : Encoding.Origin) (p : Program) : Option Text :=
  (p.toJson? o).map c.write

def encode? (o : Encoding.Origin) (p : Program) : Option Text := p.encodeWith? .stream o

end CellScript.Program
