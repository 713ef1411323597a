import CellScript.Heap

/-! A property of the values in cells. The heap makes values of its own, but never a function or a string: a
property that all others have lasts if it holds of each value that is stored. -/
namespace CellScript

/-- Every cell holds a value with the property. -/
def Heap.All (P : Value → Prop) (h : Heap) : Prop := ∀ v ∈ h.cells, P v

namespace Heap.All

variable {P : Value → Prop} {h : Heap} {v : Value}

theorem newCell (all : h.All P) (value : P v) : (h.newCell v).2.All P := by
  intro w member
  rcases Array.mem_push.mp member with member | rfl
  · exact all w member
  · exact value

theorem put (all : h.All P) (value : P v) (c : CellRef) : (h.put c v).All P := by
  intro w member
  rcases Array.mem_or_eq_of_mem_setIfInBounds member with member | rfl
  · exact all w member
  · exact value

variable (plain : ∀ v, (∀ f, v ≠ .func f) → (∀ t, v ≠ .string t) → P v)

include plain

theorem get (all : h.All P) (c : CellRef) : P (h.get c) := by
  unfold Heap.get
  cases found : h.cells[c.index]? with
  | none => exact plain .empty nofun nofun
  | some v => exact all v (Array.mem_of_getElem? found)

theorem set (all : h.All P) (value : P v) (c : CellRef) : (h.set c v).All P := by
  unfold Heap.set Heap.copy
  cases v with
  | array a =>
    have fresh : P (.array ⟨h.arrays.size⟩) := plain _ nofun nofun
    exact put (h := (h.newArray (h.array a)).2) all fresh c
  | tuple t =>
    have fresh : P (.tuple ⟨h.tuples.size⟩) := plain _ nofun nofun
    exact put (h := (h.newTuple (h.tuple t)).2) all fresh c
  | _ => exact all.put value c

theorem slot (all : h.All P) (a : ArrayRef) (key : Int64) : (h.slot a key).2.All P := by
  unfold Heap.slot
  split
  · exact all
  · exact newCell (v := .empty) all (plain _ nofun nofun)

end Heap.All

end CellScript
