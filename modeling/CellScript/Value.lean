import CellScript.Tree

/-! Values. Names, array items and tuple items do not hold values but cells, and several of them
may hold the same cell. A value that has parts refers to them by a place in the heap. -/
namespace CellScript

structure CellRef where
  index : Nat
deriving DecidableEq, Repr

structure ArrayRef where
  index : Nat
deriving DecidableEq, Repr

structure TupleRef where
  index : Nat
deriving DecidableEq, Repr

/-- Names bound to cells, each name once. -/
abbrev Bindings := List (Text × CellRef)

namespace Bindings

def get? (b : Bindings) (name : Text) : Option CellRef := b.lookup name

/-- Binds a name; a binding that it had before is gone. -/
def set (name : Text) (cell : CellRef) : Bindings → Bindings
  | [] => [(name, cell)]
  | e :: rest => if e.1 == name then (name, cell) :: rest else e :: set name cell rest

/-- All bindings of `top` on top of those of `b`. -/
def override (b top : Bindings) : Bindings := top.foldl (fun b (name, cell) => b.set name cell) b

/-- The names in byte order. -/
def sortedNames (b : Bindings) : List Text := (b.map (·.1)).mergeSort Text.le

def sorted (b : Bindings) : Bindings := b.mergeSort fun e f => Text.le e.1 f.1

@[simp] theorem get?_nil (name : Text) : get? [] name = none := rfl

theorem get?_cons (e : Text × CellRef) (b : Bindings) (name : Text) :
    get? (e :: b) name = if name = e.1 then some e.2 else b.get? name := by
  change (match name == e.1 with | true => some e.2 | false => b.get? name) = _
  by_cases h : name = e.1
  · rw [if_pos h, beq_iff_eq.2 h]
  · rw [if_neg h, beq_eq_false_iff_ne.2 h]

theorem get?_set (b : Bindings) (name other : Text) (cell : CellRef) :
    (b.set name cell).get? other = if other = name then some cell else b.get? other := by
  induction b with
  | nil => rw [set, get?_cons]
  | cons e rest ih =>
    by_cases hn : e.1 = name
    · by_cases h : other = name <;> simp [set, get?_cons, hn, h]
    · rw [set, if_neg (by simpa using hn), get?_cons, get?_cons, ih]
      by_cases h : other = e.1
      · subst h
        simp [hn]
      · simp [h]

end Bindings

/-- What a function runs when it is called. -/
inductive Code where
  | statements (body : Body)
  | expression (result : Expr)

/-- A function with the bindings that were visible where it was written. -/
structure Closure where
  span : Span
  params : List Text
  code : Code
  captured : Bindings

namespace Closure

def arity (f : Closure) : Nat := f.params.length

/-- Whether the function is a single expression. -/
def isLambda (f : Closure) : Bool :=
  match f.code with
  | .expression _ => true
  | .statements _ => false

end Closure

/-- Values. A string keeps escape sequences as written. -/
inductive Value where
  | empty
  | int (n : Int64)
  | real (x : Float)
  | bool (b : Bool)
  | string (t : Text)
  | array (a : ArrayRef)
  | tuple (t : TupleRef)
  | func (f : Closure)

namespace Value

def type : Value → TypeName
  | empty => .empty
  | int _ => .int
  | real _ => .real
  | bool _ => .bool
  | string _ => .string
  | array _ => .array
  | tuple _ => .tuple
  | func _ => .func

end Value

namespace TypeName

/-- The types in the order of their numbers. -/
def numbered : List TypeName := [.empty, .int, .real, .bool, .string, .array, .tuple, .func]

/-- How messages call values of the type. -/
def noun : TypeName → String
  | .empty => "empty"
  | .int => "int"
  | .real => "real"
  | .bool => "bool"
  | .string => "string"
  | .array => "array"
  | .tuple => "tuple"
  | .func => "func"

/-- The noun of the type with a number, or a placeholder with the number itself. -/
def describeNumber (code : Int) : Text :=
  match (if code < 0 then none else numbered[code.toNat]?) with
  | some t => utf8 t.noun
  | none => utf8 "unknown_kind_" ++ Text.ofInt code

end TypeName

end CellScript
