import CellScript.Proofs.Tree.Content

/-! The shape that a tree in a file has, and the texts in a tree. -/
namespace CellScript

namespace Regular

/-- A coordinate of 64 bits. -/
def coordinate (n : Int) : Bool := (Int64.ofInt n).toInt == n

def span (s : Span) : Bool :=
  coordinate s.start.line && coordinate s.start.column && coordinate s.stop.line && coordinate s.stop.column

/-- An optional word, whose absence is not the empty text. -/
def word {α : Type} [Vocabulary α] (w : Option (Word α)) : Bool := w.all fun w => !w.text.isEmpty

mutual

/-- Between each two operands stands an operator. -/
def expr : Expr → Bool
  | .missing => true
  | .mk s xs ops => span s && xs.length == ops.length + 1 && operands xs

/-- Expressions that have to be there. -/
def exprs : List Expr → Bool
  | [] => true
  | e :: es => !e.isMissing && expr e && exprs es

def operand : Operand → Bool
  | .mk s op p test => span s && word op && primary p && word test

def operands : List Operand → Bool
  | [] => true
  | x :: xs => operand x && operands xs

def primary : Primary → Bool
  | .read s kind => span s && kind.isKnown
  | .ref s _ ts => span s && tails ts
  | .literal s l => span s && literal l
  | .paren s inner => span s && !inner.isMissing && expr inner

def tail : Tail → Bool
  | .index s _ | .field s _ => span s
  | .subscript s key => span s && !key.isMissing && expr key
  | .call s arguments => span s && exprs arguments

def tails : List Tail → Bool
  | [] => true
  | t :: ts => tail t && tails ts

/-- A literal has to be there, and in a function its body or its result. -/
def literal : Literal → Bool
  | .missing => false
  | .integer s _ | .real s _ | .boolean s _ | .string s _ | .empty s => span s
  | .array s es => span s && exprs es
  | .tuple s es => span s && elements es
  | .function s _ b => span s && !b.isMissing && body b
  | .lambda s _ result => span s && !result.isMissing && expr result

def element : Element → Bool
  | .mk s _ value => span s && !value.isMissing && expr value

def elements : List Element → Bool
  | [] => true
  | e :: es => element e && elements es

/-- The initial value, the assigned value, the result and the other branch may be missing. -/
def statement : Statement → Bool
  | .declare s _ initial => span s && expr initial
  | .assign s target op value => span s && primary target && word op && expr value
  | .branch s condition yes no =>
    span s && !condition.isMissing && expr condition && !yes.isMissing && body yes && body no
  | .forLoop s _ low high b =>
    span s && !low.isMissing && expr low && !high.isMissing && expr high && !b.isMissing && body b
  | .whileLoop s condition b =>
    span s && !condition.isMissing && expr condition && !b.isMissing && body b
  | .print s arguments => span s && exprs arguments
  | .ret s value => span s && expr value
  | .brk s | .cont s => span s
  | .block b => !b.isMissing && body b

def statements : List Statement → Bool
  | [] => true
  | s :: ss => statement s && statements ss

def body : Body → Bool
  | .missing => true
  | .mk s ss _ => span s && statements ss

end

end Regular

/-- Whether a program has its required parts, as many operators as its operands need, no unknown kinds of
primaries and no absent word in the guise of an empty one. -/
def Program.isRegular (p : Program) : Bool :=
  Regular.span p.span && !p.body.isMissing && Regular.body p.body

namespace Texts

def word {α : Type} [Vocabulary α] (w : Option (Word α)) : List Text := w.toList.map Word.text

mutual

def expr : Expr → List Text
  | .missing => []
  | .mk _ xs ops => operands xs ++ ops.map Word.text

def exprs : List Expr → List Text
  | [] => []
  | e :: es => expr e ++ exprs es

def operand : Operand → List Text
  | .mk _ op p test => word op ++ primary p ++ word test

def operands : List Operand → List Text
  | [] => []
  | x :: xs => operand x ++ operands xs

def primary : Primary → List Text
  | .read _ kind => [kind.text]
  | .ref _ name ts => name :: tails ts
  | .literal _ l => literal l
  | .paren _ inner => expr inner

def tail : Tail → List Text
  | .index _ _ => []
  | .field _ name => [name]
  | .subscript _ key => expr key
  | .call _ arguments => exprs arguments

def tails : List Tail → List Text
  | [] => []
  | t :: ts => tail t ++ tails ts

def literal : Literal → List Text
  | .string _ t => [t]
  | .array _ es => exprs es
  | .tuple _ es => elements es
  | .function _ params b => params ++ body b
  | .lambda _ params result => params ++ expr result
  | .missing | .integer _ _ | .real _ _ | .boolean _ _ | .empty _ => []

def element : Element → List Text
  | .mk _ name value => name :: expr value

def elements : List Element → List Text
  | [] => []
  | e :: es => element e ++ elements es

def statement : Statement → List Text
  | .declare _ name initial => name :: expr initial
  | .assign _ target op value => primary target ++ word op ++ expr value
  | .branch _ condition yes no => expr condition ++ body yes ++ body no
  | .forLoop _ counter low high b => counter :: expr low ++ expr high ++ body b
  | .whileLoop _ condition b => expr condition ++ body b
  | .print _ arguments => exprs arguments
  | .ret _ value => expr value
  | .brk _ | .cont _ => []
  | .block b => body b

def statements : List Statement → List Text
  | [] => []
  | s :: ss => statement s ++ statements ss

def body : Body → List Text
  | .missing => []
  | .mk _ ss _ => statements ss

end

end Texts

/-- The names, strings and words that the program writes down. -/
def Program.texts (p : Program) : List Text := Texts.body p.body

end CellScript
