import CellScript.SparseArray
import CellScript.Tuple
import CellScript.Value

/-! The heap: cells that hold values, and the arrays and tuples that values refer to. Writing an
array or tuple into a cell gives the cell a copy of its own, whose items are still the cells of
the source. -/
namespace CellScript

structure Heap where
  cells : Array Value
  arrays : Array (SparseArray CellRef)
  tuples : Array (Tuple CellRef)

namespace Heap

def empty : Heap := ⟨#[], #[], #[]⟩

def get (h : Heap) (c : CellRef) : Value := (h.cells[c.index]?).getD .empty

/-- A fresh cell that holds a value as it is. -/
def newCell (h : Heap) (v : Value) : CellRef × Heap :=
  (⟨h.cells.size⟩, { h with cells := h.cells.push v })

/-- A cell holds a value as it is. -/
def put (h : Heap) (c : CellRef) (v : Value) : Heap :=
  { h with cells := h.cells.setIfInBounds c.index v }

def array (h : Heap) (a : ArrayRef) : SparseArray CellRef := (h.arrays[a.index]?).getD .empty

def tuple (h : Heap) (t : TupleRef) : Tuple CellRef := (h.tuples[t.index]?).getD .empty

def newArray (h : Heap) (a : SparseArray CellRef) : Value × Heap :=
  (.array ⟨h.arrays.size⟩, { h with arrays := h.arrays.push a })

def newTuple (h : Heap) (t : Tuple CellRef) : Value × Heap :=
  (.tuple ⟨h.tuples.size⟩, { h with tuples := h.tuples.push t })

/-- A value with an array or tuple of its own. -/
def copy (h : Heap) (v : Value) : Value × Heap :=
  match v with
  | .array a => h.newArray (h.array a)
  | .tuple t => h.newTuple (h.tuple t)
  | v => (v, h)

/-- Writes a value into a cell, where everything that holds the cell sees it. -/
def set (h : Heap) (c : CellRef) (v : Value) : Heap :=
  let (v, h) := h.copy v
  h.put c v

/-- The cell under a key of an array. A key that is absent gets a fresh empty cell. -/
def slot (h : Heap) (a : ArrayRef) (key : Int64) : CellRef × Heap :=
  match (h.array a).get? key with
  | some c => (c, h)
  | none =>
    let (c, h) := h.newCell .empty
    (c, { h with arrays := h.arrays.modify a.index (·.add key c) })

@[simp] theorem get_newCell_self (h : Heap) (v : Value) : (h.newCell v).2.get (h.newCell v).1 = v := by
  simp [Heap.get, Heap.newCell]

theorem get_newCell_of_lt {h : Heap} {c : CellRef} (old : c.index < h.cells.size) (v : Value) :
    (h.newCell v).2.get c = h.get c := by
  simp only [Heap.get, Heap.newCell]
  rw [Array.getElem?_push_lt old, Array.getElem?_eq_getElem old]

theorem get_put (h : Heap) (c d : CellRef) (v : Value) (inside : c.index < h.cells.size) :
    (h.put c v).get d = if d = c then v else h.get d := by
  simp only [Heap.get, Heap.put, Array.getElem?_setIfInBounds]
  by_cases same : d = c
  · subst same
    simp [inside]
  · have apart : c.index ≠ d.index := fun equal => same (by cases c; cases d; simp_all)
    simp [same, apart]

/-- Writing a cell right after it was made is making it so. -/
theorem put_newCell (h : Heap) (v w : Value) :
    (h.newCell v).2.put (h.newCell v).1 w = (h.newCell w).2 := by
  unfold Heap.put Heap.newCell
  simp only [Array.setIfInBounds, Array.size_push, Nat.lt_succ_self, dite_true, Array.set_push,
    Nat.lt_irrefl, dite_false]

theorem array_newArray (h : Heap) (a : SparseArray CellRef) (b : ArrayRef) :
    (h.newArray a).2.array b = if b.index = h.arrays.size then a else h.array b := by
  simp only [Heap.array, Heap.newArray, Array.getElem?_push]
  split <;> rfl

@[simp] theorem array_newArray_self (h : Heap) (a : SparseArray CellRef) :
    (h.newArray a).2.array ⟨h.arrays.size⟩ = a := by
  rw [array_newArray, if_pos rfl]

theorem array_newArray_of_lt {h : Heap} (a : SparseArray CellRef) {b : ArrayRef}
    (old : b.index < h.arrays.size) : (h.newArray a).2.array b = h.array b := by
  rw [array_newArray, if_neg (Nat.ne_of_lt old)]

theorem tuple_newTuple (h : Heap) (t : Tuple CellRef) (u : TupleRef) :
    (h.newTuple t).2.tuple u = if u.index = h.tuples.size then t else h.tuple u := by
  simp only [Heap.tuple, Heap.newTuple, Array.getElem?_push]
  split <;> rfl

@[simp] theorem tuple_newTuple_self (h : Heap) (t : Tuple CellRef) :
    (h.newTuple t).2.tuple ⟨h.tuples.size⟩ = t := by
  rw [tuple_newTuple, if_pos rfl]

theorem tuple_newTuple_of_lt {h : Heap} (t : Tuple CellRef) {u : TupleRef}
    (old : u.index < h.tuples.size) : (h.newTuple t).2.tuple u = h.tuple u := by
  rw [tuple_newTuple, if_neg (Nat.ne_of_lt old)]

end Heap

end CellScript
