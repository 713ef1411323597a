import CellScript.Tree

/-! Simplifying a tree from the leaves up. Rules say what becomes of single expressions,
parenthesised primaries and bodies whose parts are simplified already. -/
namespace CellScript.Optimize

/-- A part of a tree after the rules were applied, and whether anything in it changed. -/
structure Revised (α : Type) where
  value : α
  changed : Bool

namespace Revised

variable {α : Type}

/-- The new value if there is one, else the old one. -/
def ofOption (old : α) : Option α → Revised α
  | some new => ⟨new, true⟩
  | none => ⟨old, false⟩

instance : Monad Revised where
  pure a := ⟨a, false⟩
  bind x f :=
    let y := f x.value
    ⟨y.value, x.changed || y.changed⟩

end Revised

/-- What becomes of a part; no value means that it stays as it is. -/
structure Rules where
  expr : Expr → Option Expr
  paren : Primary → Option Primary
  body : Body → Option Body

namespace Rules

def none : Rules := ⟨fun _ => .none, fun _ => .none, fun _ => .none⟩

end Rules

namespace Walk

mutual

def expr (r : Rules) : Expr → Revised Expr
  | .missing => return .missing
  | .mk span xs ops => do
    let e := Expr.mk span (← operands r xs) ops
    .ofOption e (r.expr e)

def exprs (r : Rules) : List Expr → Revised (List Expr)
  | [] => return []
  | e :: es => do return (← expr r e) :: (← exprs r es)

def operand (r : Rules) : Operand → Revised Operand
  | .mk span op p test => do return .mk span op (← primary r p) test

def operands (r : Rules) : List Operand → Revised (List Operand)
  | [] => return []
  | x :: xs => do return (← operand r x) :: (← operands r xs)

def primary (r : Rules) : Primary → Revised Primary
  | .read span kind => return .read span kind
  | .ref span name ts => do return .ref span name (← tails r ts)
  | .literal span l => do return .literal span (← literal r l)
  | .paren span inner => do
    let p := Primary.paren span (← expr r inner)
    .ofOption p (r.paren p)

def tail (r : Rules) : Tail → Revised Tail
  | .index span position => return .index span position
  | .field span name => return .field span name
  | .subscript span key => do return .subscript span (← expr r key)
  | .call span arguments => do return .call span (← exprs r arguments)

def tails (r : Rules) : List Tail → Revised (List Tail)
  | [] => return []
  | t :: ts => do return (← tail r t) :: (← tails r ts)

def literal (r : Rules) : Literal → Revised Literal
  | .missing => return .missing
  | .integer span n => return .integer span n
  | .real span x => return .real span x
  | .boolean span b => return .boolean span b
  | .string span t => return .string span t
  | .empty span => return .empty span
  | .array span es => do return .array span (← exprs r es)
  | .tuple span es => do return .tuple span (← elements r es)
  | .function span params b => do return .function span params (← body r b)
  | .lambda span params result => do return .lambda span params (← expr r result)

def element (r : Rules) : Element → Revised Element
  | .mk span name value => do return .mk span name (← expr r value)

def elements (r : Rules) : List Element → Revised (List Element)
  | [] => return []
  | e :: es => do return (← element r e) :: (← elements r es)

def statement (r : Rules) : Statement → Revised Statement
  | .declare span name initial => do return .declare span name (← expr r initial)
  | .assign span target op value => do
    return .assign span (← primary r target) op (← expr r value)
  | .branch span condition yes no => do
    return .branch span (← expr r condition) (← body r yes) (← body r no)
  | .forLoop span counter low high b => do
    return .forLoop span counter (← expr r low) (← expr r high) (← body r b)
  | .whileLoop span condition b => do return .whileLoop span (← expr r condition) (← body r b)
  | .print span arguments => do return .print span (← exprs r arguments)
  | .ret span value => do return .ret span (← expr r value)
  | .brk span => return .brk span
  | .cont span => return .cont span
  | .block b => do return .block (← body r b)

def statements (r : Rules) : List Statement → Revised (List Statement)
  | [] => return []
  | s :: ss => do return (← statement r s) :: (← statements r ss)

def body (r : Rules) : Body → Revised Body
  | .missing => return .missing
  | .mk span ss cleared => do
    let b := Body.mk span (← statements r ss) cleared
    .ofOption b (r.body b)

end

end Walk

end CellScript.Optimize
