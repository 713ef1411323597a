import CellScript.Text

/-! Tuples: items in order, some of them named. No two items have the same name. -/
namespace CellScript

/-- Items in order, each with a label, which is empty for an item without a name; an index tells
where the item of each name stands. -/
structure Tuple (α : Type) where
  items : Array α
  labels : Array Text
  places : List (Text × Nat)
deriving Repr

namespace Tuple

variable {α : Type}

def empty : Tuple α := ⟨#[], #[], []⟩

def size (t : Tuple α) : Nat := t.items.size

/-- Items with their labels, in order. -/
def fields (t : Tuple α) : List (Text × α) := t.labels.toList.zip t.items.toList

/-- The item at a position counted from one. -/
def get? (t : Tuple α) (position : Int64) : Option α :=
  if position < 1 then none else t.items[position.toInt.toNat - 1]?

/-- Where a name stands, counted from zero. -/
def position? (t : Tuple α) (name : Text) : Option Nat := t.places.lookup name

def field? (t : Tuple α) (name : Text) : Option α := (t.position? name).bind (t.items[·]?)

def names (t : Tuple α) : List Text := t.labels.toList.filter (!·.isEmpty)

def push (t : Tuple α) (name : Text) (x : α) : Tuple α where
  items := t.items.push x
  labels := t.labels.push name
  places := if name.isEmpty then t.places else t.places ++ [(name, t.size)]

/-- One more item at the end, or its name if the tuple has that already. -/
def add? (t : Tuple α) (name : Text) (x : α) : Except Text (Tuple α) :=
  if !name.isEmpty && (t.position? name).isSome then .error name else .ok (t.push name x)

/-- The tuple with the given fields, or a name that occurs twice. -/
def ofFields (fields : List (Text × α)) : Except Text (Tuple α) :=
  fields.foldlM (fun t (name, x) => t.add? name x) empty

/-- The fields of both tuples, or a name that both have. -/
def append? (t u : Tuple α) : Except Text (Tuple α) := ofFields (t.fields ++ u.fields)

end Tuple

end CellScript
