import CellScript.Fault
import CellScript.Heap
import CellScript.Text.Blank
import CellScript.Text.Case

/-! What operators do. Joining two arrays or tuples makes a new one, so a heap goes in and comes
out; all else depends on the operands alone. -/
namespace CellScript

/-- How operators of equal precedence group. -/
inductive Associativity where
  | right
  | left
deriving DecidableEq, Repr

namespace Associativity

def name : Associativity → Text
  | right => utf8 "right"
  | left => utf8 "left"

/-- The associativity that a word names, whatever its case; no word means to the right. -/
def ofText? (word : Text) : Option Associativity :=
  let w := word.trim.lower
  if w.isEmpty || w == right.name then some right
  else if w == left.name then some left
  else none

def unknownMessage (word : Text) : Text := utf8 "unknown associativity " ++ word.quoted

end Associativity

namespace Operators

/-- Two numbers of one type; an integer beside a real becomes a real. -/
inductive Numbers where
  | ints (l r : Int64)
  | reals (l r : Float)

def numbers? : Value → Value → Option Numbers
  | .int l, .int r => some (.ints l r)
  | .int l, .real r => some (.reals l.toFloat r)
  | .real l, .int r => some (.reals l r.toFloat)
  | .real l, .real r => some (.reals l r)
  | _, _ => none

inductive Arithmetic where
  | add | subtract | multiply | divide

inductive Comparison where
  | less | lessEqual | greater | greaterEqual

def arithmetic (op : Arithmetic) : Numbers → Except Fault Value
  | .ints l r =>
    match op with
    | .add => .ok (.int (l + r))
    | .subtract => .ok (.int (l - r))
    | .multiply => .ok (.int (l * r))
    | .divide => if r = 0 then .error .divisionByZero else .ok (.int (l / r))
  | .reals l r =>
    match op with
    | .add => .ok (.real (l + r))
    | .subtract => .ok (.real (l - r))
    | .multiply => .ok (.real (l * r))
    | .divide => .ok (.real (l / r))

/-- Comparisons with an undefined real are false. -/
def compare (op : Comparison) : Numbers → Bool
  | .ints l r =>
    match op with
    | .less => l < r
    | .lessEqual => l ≤ r
    | .greater => r < l
    | .greaterEqual => r ≤ l
  | .reals l r =>
    match op with
    | .less => l < r
    | .lessEqual => l ≤ r
    | .greater => r < l
    | .greaterEqual => r ≤ l

def numbersEqual : Numbers → Bool
  | .ints l r => l == r
  | .reals l r => l == r

/-- Equality, where it is defined: numbers, and scalars of the same type. -/
def equal? (l r : Value) : Option Bool :=
  match numbers? l r with
  | some n => some (numbersEqual n)
  | none =>
    match l, r with
    | .string s, .string t => some (s == t)
    | .bool a, .bool b => some (a == b)
    | .empty, .empty => some true
    | _, _ => none

/-- Sums that are no numbers: strings, arrays and tuples are joined. -/
def join? (h : Heap) : Value → Value → Option (Except Fault (Value × Heap))
  | .string s, .string t => some (.ok (.string (s ++ t), h))
  | .array a, .array b => some (.ok (h.newArray (h.array a ++ h.array b)))
  | .tuple t, .tuple u =>
    some (match (h.tuple t).append? (h.tuple u) with
      | .ok v => .ok (h.newTuple v)
      | .error name => .error (.duplicateKey name))
  | _, _ => none

def binary (op : BinaryOp) (l r : Value) (h : Heap) : Except Fault (Value × Heap) :=
  let undefined : Fault := .binaryUndefined op l.type r.type
  let pure (v : Value) : Except Fault (Value × Heap) := .ok (v, h)
  let calculate (a : Arithmetic) : Except Fault (Value × Heap) :=
    match numbers? l r with
    | some n => (arithmetic a n).map (·, h)
    | none => .error undefined
  let order (c : Comparison) : Except Fault (Value × Heap) :=
    match numbers? l r with
    | some n => pure (.bool (compare c n))
    | none => .error undefined
  let logic (f : Bool → Bool → Bool) : Except Fault (Value × Heap) :=
    match l, r with
    | .bool a, .bool b => pure (.bool (f a b))
    | _, _ => .error undefined
  match op with
  | .add => (join? h l r).getD (calculate .add)
  | .subtract => calculate .subtract
  | .multiply => calculate .multiply
  | .divide => calculate .divide
  | .less => order .less
  | .lessEqual => order .lessEqual
  | .greater => order .greater
  | .greaterEqual => order .greaterEqual
  | .equal =>
    match equal? l r with
    | some b => pure (.bool b)
    | none => .error undefined
  | .notEqual =>
    match equal? l r with
    | some b => pure (.bool (!b))
    | none => .error undefined
  | .and => logic (· && ·)
  | .or => logic (· || ·)
  | .xor => logic (· != ·)

def unary (op : Word UnaryOp) (v : Value) : Except Fault Value :=
  match op, v with
  | .known .plus, .int n => .ok (.int n)
  | .known .plus, .real x => .ok (.real x)
  | .known .minus, .int n => .ok (.int (-n))
  | .known .minus, .real x => .ok (.real (-x))
  | .known .not, .bool b => .ok (.bool !b)
  | op, v => .error (.unaryUndefined op v.type)

/-- Whether a value has the type that is asked for; nothing has an unknown type. -/
def typeTest (asked : Word TypeName) (v : Value) : Bool :=
  match asked with
  | .known t => v.type == t
  | .other _ _ => false

/-- The value of an operand's own operators: first the type test, then the operator. -/
def operand (op : Option (Word UnaryOp)) (test : Option (Word TypeName)) (v : Value) :
    Except Fault Value :=
  let v := match test with
    | some asked => .bool (typeTest asked v)
    | none => v
  match op with
  | some op => unary op v
  | none => .ok v

/-- A larger number binds tighter. -/
def precedence : BinaryOp → Int
  | .multiply | .divide => 4
  | .add | .subtract => 3
  | .less | .lessEqual | .greater | .greaterEqual | .equal | .notEqual => 2
  | .and => 1
  | .xor => 0
  | .or => -1

/-- Whether a pending operator is applied before the next one is looked at. -/
def yields (assoc : Associativity) (pending next : BinaryOp) : Bool :=
  precedence next < precedence pending || (assoc == .left && precedence next == precedence pending)

/-- A pending application: the left operand and its operator, waiting for the right operand. -/
abbrev Pending := List (Value × BinaryOp)

/-- Applies pending operators to the right operand as long as `ready` says. -/
def applyWhile (ready : BinaryOp → Bool) :
    Pending → Value → Heap → Except Fault (Pending × Value × Heap)
  | [], right, h => .ok ([], right, h)
  | (left, op) :: pending, right, h =>
    if ready op then
      match binary op left right h with
      | .ok (v, h) => applyWhile ready pending v h
      | .error e => .error e
    else .ok ((left, op) :: pending, right, h)

/-- Goes through operators and right operands. `v` is the latest operand. -/
def reduceFrom (assoc : Associativity) :
    List (Word BinaryOp × Value) → Pending → Value → Heap → Except Fault (Value × Heap)
  | [], pending, v, h =>
    match applyWhile (fun _ => true) pending v h with
    | .ok (_, v, h) => .ok (v, h)
    | .error e => .error e
  | (.other op _, _) :: _, _, _, _ => .error (.unknownOperator op)
  | (.known op, next) :: rest, pending, v, h =>
    match applyWhile (fun p => yields assoc p op) pending v h with
    | .ok (pending, v, h) => reduceFrom assoc rest ((v, op) :: pending) next h
    | .error e => .error e

/-- The value of operands joined by operators. -/
def reduce (assoc : Associativity) (first : Value) (rest : List (Word BinaryOp × Value))
    (h : Heap) : Except Fault (Value × Heap) :=
  reduceFrom assoc rest [] first h

end Operators

end CellScript
