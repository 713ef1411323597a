import CellScript.Operators
import CellScript.Optimize.Walk
import CellScript.Real.Format

/-! Constant folding: an expression over literals becomes the literal of its value. The operators
are those that evaluation uses. An expression without a value stays and fails when it runs. -/
namespace CellScript.Optimize

/-- The value of a literal without parts. -/
def scalarValue? : Literal → Option Value
  | .integer _ n => some (.int n)
  | .real _ x => some (.real x)
  | .boolean _ b => some (.bool b)
  | .string _ t => some (.string t)
  | .empty _ => some .empty
  | _ => none

/-- The literal of a value, if there is one: none spells an infinite or undefined real. -/
def literalOf? (span : Span) : Value → Option Literal
  | .int n => some (.integer span n)
  | .real x => if Real.isFinite x then some (.real span x) else none
  | .bool b => some (.boolean span b)
  | .string t => some (.string span t)
  | .empty => some (.empty span)
  | _ => none

def operandValue? : Operand → Option Value
  | .mk _ op (.literal _ l) test => do
    match Operators.operand op test (← scalarValue? l) with
    | .ok v => some v
    | .error _ => none
  | _ => none

def constantValue? (assoc : Associativity) : Expr → Option Value
  | .mk _ (x :: xs) ops => do
    let first ← operandValue? x
    let rest ← xs.mapM operandValue?
    if rest.length ≠ ops.length then none
    else match Operators.reduce assoc first (ops.zip rest) .empty with
    | .ok (v, _) => some v
    | .error _ => none
  | _ => none

/-- The literal that is the whole of an expression. -/
def plainLiteral? : Expr → Option Literal
  | .mk _ [.mk _ none (.literal _ l) none] [] => some l
  | _ => none

/-- An expression that is a literal already is left alone. -/
def foldExpr (assoc : Associativity) (e : Expr) : Option Expr := do
  if (plainLiteral? e).isSome then none
  else
    let l ← literalOf? e.span (← constantValue? assoc e)
    return .mk e.span [.mk e.span none (.literal e.span l) none] []

/-- A parenthesised literal without parts needs no parentheses. -/
def unwrap : Primary → Option Primary
  | .paren span inner => do
    let l ← plainLiteral? inner
    if l.isScalar then some (.literal span l) else none
  | _ => none

def foldRules (assoc : Associativity) : Rules := { Rules.none with
  expr := foldExpr assoc
  paren := unwrap }

end CellScript.Optimize
