import CellScript.Tree

/-! What a tree says apart from its places: a tree with all its places changed, and the reals in it. -/
namespace CellScript

def Word.isKnown {α : Type} [Vocabulary α] : Word α → Bool
  | known _ => true
  | other _ _ => false

namespace Restamp

variable (f : Span → Span)

mutual

def expr : Expr → Expr
  | .missing => .missing
  | .mk span xs ops => .mk (f span) (operands xs) ops

def exprs : List Expr → List Expr
  | [] => []
  | e :: es => expr e :: exprs es

def operand : Operand → Operand
  | .mk span op p test => .mk (f span) op (primary p) test

def operands : List Operand → List Operand
  | [] => []
  | x :: xs => operand x :: operands xs

def primary : Primary → Primary
  | .read span kind => .read (f span) kind
  | .ref span name ts => .ref (f span) name (tails ts)
  | .literal span l => .literal (f span) (literal l)
  | .paren span inner => .paren (f span) (expr inner)

def tail : Tail → Tail
  | .index span i => .index (f span) i
  | .field span name => .field (f span) name
  | .subscript span key => .subscript (f span) (expr key)
  | .call span arguments => .call (f span) (exprs arguments)

def tails : List Tail → List Tail
  | [] => []
  | t :: ts => tail t :: tails ts

def literal : Literal → Literal
  | .missing => .missing
  | .integer span n => .integer (f span) n
  | .real span x => .real (f span) x
  | .boolean span b => .boolean (f span) b
  | .string span t => .string (f span) t
  | .empty span => .empty (f span)
  | .array span es => .array (f span) (exprs es)
  | .tuple span es => .tuple (f span) (elements es)
  | .function span params b => .function (f span) params (body b)
  | .lambda span params result => .lambda (f span) params (expr result)

def element : Element → Element
  | .mk span name value => .mk (f span) name (expr value)

def elements : List Element → List Element
  | [] => []
  | e :: es => element e :: elements es

def statement : Statement → Statement
  | .declare span name initial => .declare (f span) name (expr initial)
  | .assign span target op value => .assign (f span) (primary target) op (expr value)
  | .branch span condition yes no => .branch (f span) (expr condition) (body yes) (body no)
  | .forLoop span counter low high b => .forLoop (f span) counter (expr low) (expr high) (body b)
  | .whileLoop span condition b => .whileLoop (f span) (expr condition) (body b)
  | .print span arguments => .print (f span) (exprs arguments)
  | .ret span value => .ret (f span) (expr value)
  | .brk span => .brk (f span)
  | .cont span => .cont (f span)
  | .block b => .block (body b)

def statements : List Statement → List Statement
  | [] => []
  | s :: ss => statement s :: statements ss

/-- The flag of removed statements says nothing that a source or a file could, so it is lowered. -/
def body : Body → Body
  | .missing => .missing
  | .mk span ss _ => .mk (f span) (statements ss) false

end

end Restamp

/-- The program with every place changed. -/
def Program.restamp (f : Span → Span) (p : Program) : Program := ⟨f p.span, Restamp.body f p.body⟩

/-- Every place gives way to the zero span. -/
def Restamp.blank (_ : Span) : Span := .zero

/-- The program without places. -/
def Program.bare (p : Program) : Program := p.restamp Restamp.blank

namespace Reals

mutual

def expr : Expr → List Float
  | .missing => []
  | .mk _ xs _ => operands xs

def exprs : List Expr → List Float
  | [] => []
  | e :: es => expr e ++ exprs es

def operand : Operand → List Float
  | .mk _ _ p _ => primary p

def operands : List Operand → List Float
  | [] => []
  | x :: xs => operand x ++ operands xs

def primary : Primary → List Float
  | .read _ _ => []
  | .ref _ _ ts => tails ts
  | .literal _ l => literal l
  | .paren _ inner => expr inner

def tail : Tail → List Float
  | .index _ _ => []
  | .field _ _ => []
  | .subscript _ key => expr key
  | .call _ arguments => exprs arguments

def tails : List Tail → List Float
  | [] => []
  | t :: ts => tail t ++ tails ts

def literal : Literal → List Float
  | .real _ x => [x]
  | .array _ es => exprs es
  | .tuple _ es => elements es
  | .function _ _ b => body b
  | .lambda _ _ result => expr result
  | .missing | .integer _ _ | .boolean _ _ | .string _ _ | .empty _ => []

def element : Element → List Float
  | .mk _ _ value => expr value

def elements : List Element → List Float
  | [] => []
  | e :: es => element e ++ elements es

def statement : Statement → List Float
  | .declare _ _ initial => expr initial
  | .assign _ target _ value => primary target ++ expr value
  | .branch _ condition yes no => expr condition ++ body yes ++ body no
  | .forLoop _ _ low high b => expr low ++ expr high ++ body b
  | .whileLoop _ condition b => expr condition ++ body b
  | .print _ arguments => exprs arguments
  | .ret _ value => expr value
  | .brk _ | .cont _ => []
  | .block b => body b

def statements : List Statement → List Float
  | [] => []
  | s :: ss => statement s ++ statements ss

def body : Body → List Float
  | .missing => []
  | .mk _ ss _ => statements ss

end

end Reals

def Program.reals (p : Program) : List Float := Reals.body p.body

end CellScript
