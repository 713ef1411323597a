import CellScript.Tree

/-! The nodes of a tree, whatever they are, with their parts in source order. What is missing is no part. -/
namespace CellScript

inductive Subtree where
  | program (p : Program)
  | body (b : Body)
  | statement (s : Statement)
  | expr (e : Expr)
  | operand (x : Operand)
  | primary (p : Primary)
  | tail (t : Tail)
  | literal (l : Literal)
  | element (e : Element)

namespace Subtree

def span : Subtree → Span
  | program p => p.span
  | body b => b.span
  | statement s => s.span
  | expr e => e.span
  | operand (.mk span ..) => span
  | primary p => p.span
  | tail t => t.span
  | literal l => l.span
  | element (.mk span ..) => span

def ofExpr : Expr → List Subtree
  | .missing => []
  | .mk span operands operators => [expr (.mk span operands operators)]

def ofBody : Body → List Subtree
  | .missing => []
  | .mk span statements cleared => [body (.mk span statements cleared)]

def parts : Subtree → List Subtree
  | program p => ofBody p.body
  | body b => b.statements.map statement
  | statement (.declare _ _ initial) => ofExpr initial
  | statement (.assign _ target _ value) => primary target :: ofExpr value
  | statement (.branch _ condition yes no) => ofExpr condition ++ ofBody yes ++ ofBody no
  | statement (.forLoop _ _ low high repeated) => ofExpr low ++ ofExpr high ++ ofBody repeated
  | statement (.whileLoop _ condition repeated) => ofExpr condition ++ ofBody repeated
  | statement (.print _ arguments) => arguments.flatMap ofExpr
  | statement (.ret _ value) => ofExpr value
  | statement (.brk _) | statement (.cont _) => []
  | statement (.block b) => b.statements.map statement
  | expr .missing => []
  | expr (.mk _ operands _) => operands.map operand
  | operand (.mk _ _ p _) => [primary p]
  | primary (.read ..) => []
  | primary (.ref _ _ tails) => tails.map tail
  | primary (.literal _ l) => [literal l]
  | primary (.paren _ inner) => ofExpr inner
  | tail (.index ..) | tail (.field ..) => []
  | tail (.subscript _ key) => ofExpr key
  | tail (.call _ arguments) => arguments.flatMap ofExpr
  | literal (.array _ elements) => elements.flatMap ofExpr
  | literal (.tuple _ elements) => elements.map element
  | literal (.function _ _ b) => ofBody b
  | literal (.lambda _ _ result) => ofExpr result
  | literal _ => []
  | element (.mk _ _ value) => ofExpr value

/-- The first node is the second one or somewhere below it. -/
inductive Under : Subtree → Subtree → Prop
  | refl (x : Subtree) : Under x x
  | step {x y z : Subtree} (part : y ∈ x.parts) (below : Under z y) : Under z x

end Subtree

end CellScript
