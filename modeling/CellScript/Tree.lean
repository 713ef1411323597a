import CellScript.Span
import CellScript.Vocabulary

/-! Syntax trees. Expressions stay flat runs of operands and operators; precedence is decided when
they are evaluated. A tree may also be put together by hand, so required parts can be missing,
counts of operands and operators can disagree and words can be unknown. -/
namespace CellScript

/-- Operators between two operands. -/
inductive BinaryOp where
  | multiply | divide | add | subtract | less | lessEqual | greater | greaterEqual | equal
  | notEqual | and | or | xor
deriving DecidableEq, Repr

namespace BinaryOp

def spelling : BinaryOp → String
  | multiply => "*" | divide => "/" | add => "+" | subtract => "-" | less => "<"
  | lessEqual => "<=" | greater => ">" | greaterEqual => ">=" | equal => "=" | notEqual => "/="
  | and => "and" | or => "or" | xor => "xor"

instance : Vocabulary BinaryOp where
  all := [multiply, divide, add, subtract, less, lessEqual, greater, greaterEqual, equal, notEqual,
    and, or, xor]
  spelling op := utf8 op.spelling

end BinaryOp

/-- Operators before one operand. -/
inductive UnaryOp where
  | plus | minus | not
deriving DecidableEq, Repr

instance : Vocabulary UnaryOp where
  all := [.plus, .minus, .not]
  spelling op := utf8 (match op with | .plus => "+" | .minus => "-" | .not => "not")

inductive TypeName where
  | int | real | bool | string | empty | array | tuple | func
deriving DecidableEq, Repr

instance : Vocabulary TypeName where
  all := [.int, .real, .bool, .string, .empty, .array, .tuple, .func]
  spelling t := utf8 (match t with
    | .int => "int" | .real => "real" | .bool => "bool" | .string => "string" | .empty => "empty"
    | .array => "[]" | .tuple => "\x7b\x7d" | .func => "func")

inductive AssignOp where
  | set | add | subtract
deriving DecidableEq, Repr

instance : Vocabulary AssignOp where
  all := [.set, .add, .subtract]
  spelling op := utf8 (match op with | .set => ":=" | .add => "+=" | .subtract => "-=")

inductive ReadKind where
  | int | real | string
deriving DecidableEq, Repr

instance : Vocabulary ReadKind where
  all := [.int, .real, .string]
  spelling k := utf8 (match k with
    | .int => "readInt" | .real => "readReal" | .string => "readString")

mutual

/-- Operands joined by operators, or nothing where an expression should stand. -/
inductive Expr where
  | missing
  | mk (span : Span) (operands : List Operand) (operators : List (Word BinaryOp))

/-- A primary with an optional operator before it. With a type test the primary is tested first
and the operator applies to the answer. -/
inductive Operand where
  | mk (span : Span) (op : Option (Word UnaryOp)) (primary : Primary)
      (test : Option (Word TypeName))

inductive Primary where
  | read (span : Span) (kind : Word ReadKind)
  | ref (span : Span) (name : Text) (tails : List Tail)
  | literal (span : Span) (value : Literal)
  | paren (span : Span) (inner : Expr)

/-- A step from a value into one of its parts, or a call. -/
inductive Tail where
  | index (span : Span) (position : Int64)
  | field (span : Span) (name : Text)
  | subscript (span : Span) (key : Expr)
  | call (span : Span) (arguments : List Expr)

/-- Literals. A string keeps its escape sequences as written; a function has a body of statements
or, as a lambda, a single expression. Nothing may stand where a literal should. -/
inductive Literal where
  | missing
  | integer (span : Span) (value : Int64)
  | real (span : Span) (value : Float)
  | boolean (span : Span) (value : Bool)
  | string (span : Span) (value : Text)
  | empty (span : Span)
  | array (span : Span) (elements : List Expr)
  | tuple (span : Span) (elements : List Element)
  | function (span : Span) (params : List Text) (body : Body)
  | lambda (span : Span) (params : List Text) (result : Expr)

/-- A tuple element; the empty name means that it has none. -/
inductive Element where
  | mk (span : Span) (name : Text) (value : Expr)

inductive Statement where
  | declare (span : Span) (name : Text) (initial : Expr)
  | assign (span : Span) (target : Primary) (op : Option (Word AssignOp)) (value : Expr)
  | branch (span : Span) (condition : Expr) (yes no : Body)
  | forLoop (span : Span) (counter : Text) (low high : Expr) (body : Body)
  | whileLoop (span : Span) (condition : Expr) (body : Body)
  | print (span : Span) (arguments : List Expr)
  | ret (span : Span) (value : Expr)
  | brk (span : Span)
  | cont (span : Span)
  | block (body : Body)

/-- Statements in order, or nothing where a body should stand. `cleared` tells that statements
were taken out. -/
inductive Body where
  | missing
  | mk (span : Span) (statements : List Statement) (cleared : Bool)

end

structure Program where
  span : Span
  body : Body

namespace Expr

def span : Expr → Span
  | missing => .zero
  | mk span _ _ => span

def isMissing : Expr → Bool
  | missing => true
  | mk .. => false

end Expr

namespace Primary

def span : Primary → Span
  | read span _ | ref span _ _ | literal span _ | paren span _ => span

end Primary

namespace Tail

def span : Tail → Span
  | index span _ | field span _ | subscript span _ | call span _ => span

end Tail

namespace Literal

def span : Literal → Span
  | missing => .zero
  | integer span _ | real span _ | boolean span _ | string span _ | empty span | array span _
  | tuple span _ | function span _ _ | lambda span _ _ => span

/-- Whether the literal is a single value without parts. -/
def isScalar : Literal → Bool
  | integer .. | real .. | boolean .. | string .. | empty .. => true
  | missing | array .. | tuple .. | function .. | lambda .. => false

end Literal

namespace Body

def span : Body → Span
  | missing => .zero
  | mk span _ _ => span

def statements : Body → List Statement
  | missing => []
  | mk _ statements _ => statements

def isMissing : Body → Bool
  | missing => true
  | mk .. => false

end Body

namespace Statement

def span : Statement → Span
  | declare span _ _ | assign span _ _ _ | branch span _ _ _ | forLoop span _ _ _ _
  | whileLoop span _ _ | print span _ | ret span _ | brk span | cont span => span
  | block body => body.span

end Statement

end CellScript
