import CellScript.Proofs.Plan.Heaps

/-! Which cells hold arrays and tuples. A value that is written into a cell is copied, and what operators
give has just been made, so the operations of the heap never let two cells hold the same array or
tuple. -/
namespace CellScript

def Value.isContainer : Value → Bool
  | .array _ | .tuple _ => true
  | _ => false

theorem Value.isContainer_of_isScalar {v : Value} (scalar : v.isScalar = true) :
    v.isContainer = false := by
  cases v with
  | array | tuple | func => cases scalar
  | _ => rfl

namespace Heap

variable {h : Heap} {v : Value} {c d : CellRef}

/-! ### What the operations of the heap leave as it is -/

theorem get_newCell (h : Heap) (v : Value) (c : CellRef) :
    (h.newCell v).2.get c = if c = ⟨h.cells.size⟩ then v else h.get c := by
  obtain ⟨i⟩ := c
  simp only [Heap.get, Heap.newCell, Array.getElem?_push, CellRef.mk.injEq]
  split <;> rfl

theorem get_of_size_le (outside : h.cells.size ≤ c.index) : h.get c = .empty := by
  unfold Heap.get
  rw [Array.getElem?_eq_none outside]
  rfl

theorem put_of_size_le (outside : h.cells.size ≤ c.index) (v : Value) : h.put c v = h := by
  unfold Heap.put
  rw [Array.setIfInBounds, dif_neg (Nat.not_lt_of_le outside)]

/-- A fresh cell is empty, as a cell that is not there. -/
theorem get_slot (h : Heap) (a : ArrayRef) (key : Int64) (c : CellRef) :
    (h.slot a key).2.get c = h.get c := by
  unfold Heap.slot
  split
  · rfl
  · change (h.newCell .empty).2.get c = h.get c
    rw [get_newCell]
    split
    next fresh =>
      subst fresh
      exact (get_of_size_le (Nat.le_refl _)).symm
    next => rfl

theorem arrays_size_slot (h : Heap) (a : ArrayRef) (key : Int64) :
    (h.slot a key).2.arrays.size = h.arrays.size := by
  unfold Heap.slot
  split
  · rfl
  · exact Array.size_modify

theorem tuples_slot (h : Heap) (a : ArrayRef) (key : Int64) :
    (h.slot a key).2.tuples = h.tuples := by
  unfold Heap.slot
  split <;> rfl

theorem array_slot_of_ne {a b : ArrayRef} (other : b ≠ a) (key : Int64) :
    (h.slot a key).2.array b = h.array b := by
  have apart : a.index ≠ b.index := fun same => other (by cases a; cases b; simp_all)
  unfold Heap.slot
  split
  · rfl
  · simp only [Heap.array, Heap.newCell, Array.getElem?_modify, apart, if_false]

theorem array_slot_self {a : ArrayRef} (inside : a.index < h.arrays.size) (key : Int64) :
    (h.slot a key).2.array a = h.array a ∨
      (h.array a).get? key = none ∧ ∃ c, (h.slot a key).2.array a = (h.array a).add key c := by
  unfold Heap.slot
  split
  · exact .inl rfl
  next absent =>
    refine .inr ⟨absent, ⟨h.cells.size⟩, ?_⟩
    simp [Heap.array, Heap.newCell, Array.getElem_modify, inside]

/-! ### Ownership -/

/-- The array or tuple that a value refers to is there. -/
def Knows (h : Heap) : Value → Prop
  | .array a => a.index < h.arrays.size
  | .tuple t => t.index < h.tuples.size
  | _ => True

/-- A value that a cell may hold as it is: one that refers to no array or tuple, or to one that no
cell holds. -/
structure Loose (h : Heap) (v : Value) : Prop where
  known : h.Knows v
  unheld : v.isContainer = true → ∀ c, h.get c ≠ v

/-- No array or tuple is what two different cells hold. -/
structure Owned (h : Heap) : Prop where
  known : ∀ c, h.Knows (h.get c)
  owner : ∀ c d, (h.get c).isContainer = true → h.get c = h.get d → c = d

theorem Knows.mono {k : Heap} (known : h.Knows v) (arrays : h.arrays.size ≤ k.arrays.size)
    (tuples : h.tuples.size ≤ k.tuples.size) : k.Knows v := by
  cases v with
  | array a => exact Nat.lt_of_lt_of_le known arrays
  | tuple t => exact Nat.lt_of_lt_of_le known tuples
  | _ => trivial

theorem Loose.plain (h : Heap) (plain : v.isContainer = false) : h.Loose v := by
  constructor
  case known =>
    cases v with
    | array | tuple => cases plain
    | _ => trivial
  case unheld =>
    intro container
    rw [plain] at container
    cases container

namespace Owned

theorem empty : Owned .empty := by
  constructor
  case known => exact fun c => trivial
  case owner =>
    intro c d container
    cases container

/-- Cells hold what they held, and nothing is gone. -/
theorem of_get {k : Heap} (owned : h.Owned) (same : ∀ c, k.get c = h.get c)
    (arrays : h.arrays.size ≤ k.arrays.size) (tuples : h.tuples.size ≤ k.tuples.size) :
    k.Owned := by
  constructor
  case known =>
    intro c
    rw [same]
    exact (owned.known c).mono arrays tuples
  case owner =>
    intro c d
    rw [same, same]
    exact owned.owner c d

/-- One more cell holds a value that no other cell holds. -/
theorem hold {k : Heap} (owned : h.Owned) (loose : h.Loose v)
    (held : ∀ d, k.get d = if d = c then v else h.get d)
    (arrays : k.arrays = h.arrays) (tuples : k.tuples = h.tuples) : k.Owned := by
  have knows {w : Value} (known : h.Knows w) : k.Knows w :=
    known.mono (Nat.le_of_eq (by rw [arrays])) (Nat.le_of_eq (by rw [tuples]))
  constructor
  case known =>
    intro d
    rw [held]
    split
    · exact knows loose.known
    · exact knows (owned.known d)
  case owner =>
    intro d e container same
    rw [held] at container
    rw [held, held] at same
    split at same
    next left =>
      rw [if_pos left] at container
      split at same
      next right => exact left.trans right.symm
      next => exact absurd same.symm (loose.unheld container e)
    next left =>
      rw [if_neg left] at container
      split at same
      next => exact absurd same (loose.unheld (same ▸ container) d)
      next => exact owned.owner d e container same

theorem newCell (owned : h.Owned) (loose : h.Loose v) : (h.newCell v).2.Owned := by
  apply owned.hold (c := ⟨h.cells.size⟩) loose
  · exact h.get_newCell v
  · rfl
  · rfl

theorem put (owned : h.Owned) (loose : h.Loose v) (c : CellRef) : (h.put c v).Owned := by
  rcases Nat.lt_or_ge c.index h.cells.size with inside | outside
  · exact owned.hold (c := c) loose (fun d => h.get_put c d v inside) rfl rfl
  · rw [put_of_size_le outside]
    exact owned

theorem newArray (owned : h.Owned) (a : SparseArray CellRef) :
    (h.newArray a).2.Owned ∧ (h.newArray a).2.Loose (h.newArray a).1 := by
  have more : h.arrays.size < (h.newArray a).2.arrays.size := by
    simp only [Heap.newArray, Array.size_push]
    exact Nat.lt_succ_self _
  constructor
  · exact owned.of_get (fun c => rfl) (Nat.le_of_lt more) (Nat.le_refl _)
  · constructor
    case known => exact more
    case unheld =>
      intro _ c held
      have known := owned.known c
      have same : h.get c = .array ⟨h.arrays.size⟩ := held
      rw [same] at known
      exact Nat.lt_irrefl _ known

theorem newTuple (owned : h.Owned) (t : Tuple CellRef) :
    (h.newTuple t).2.Owned ∧ (h.newTuple t).2.Loose (h.newTuple t).1 := by
  have more : h.tuples.size < (h.newTuple t).2.tuples.size := by
    simp only [Heap.newTuple, Array.size_push]
    exact Nat.lt_succ_self _
  constructor
  · exact owned.of_get (fun c => rfl) (Nat.le_refl _) (Nat.le_of_lt more)
  · constructor
    case known => exact more
    case unheld =>
      intro _ c held
      have known := owned.known c
      have same : h.get c = .tuple ⟨h.tuples.size⟩ := held
      rw [same] at known
      exact Nat.lt_irrefl _ known

theorem copy (owned : h.Owned) (v : Value) : (h.copy v).2.Owned ∧ (h.copy v).2.Loose (h.copy v).1 := by
  cases v with
  | array a => exact owned.newArray (h.array a)
  | tuple t => exact owned.newTuple (h.tuple t)
  | _ => exact ⟨owned, .plain h rfl⟩

theorem set (owned : h.Owned) (c : CellRef) (v : Value) : (h.set c v).Owned := by
  obtain ⟨copied, loose⟩ := owned.copy v
  exact copied.put loose c

theorem slot (owned : h.Owned) (a : ArrayRef) (key : Int64) : (h.slot a key).2.Owned := by
  apply owned.of_get (h.get_slot a key)
  · exact Nat.le_of_eq (h.arrays_size_slot a key).symm
  · exact Nat.le_of_eq (congrArg Array.size (h.tuples_slot a key).symm)

end Owned

end Heap

/-- The heaps that operations of the heap lead to: fresh cells get what no cell holds, cells are
written, keys are asked for, and arrays and tuples are copied, joined and made from any items. -/
inductive Heap.Assembled : Heap → Prop where
  | empty : Assembled .empty
  | newCell {h : Heap} {v : Value} (before : Assembled h) (loose : h.Loose v) :
    Assembled (h.newCell v).2
  | newArray {h : Heap} (before : Assembled h) (a : SparseArray CellRef) : Assembled (h.newArray a).2
  | newTuple {h : Heap} (before : Assembled h) (t : Tuple CellRef) : Assembled (h.newTuple t).2
  | set {h : Heap} (before : Assembled h) (c : CellRef) (v : Value) : Assembled (h.set c v)
  | slot {h : Heap} (before : Assembled h) (a : ArrayRef) (key : Int64) : Assembled (h.slot a key).2
  | copy {h : Heap} (before : Assembled h) (v : Value) : Assembled (h.copy v).2
  | join {h : Heap} {l r : Value} {result : Value × Heap} (before : Assembled h)
      (joins : Operators.join? h l r = some (.ok result)) : Assembled result.2

theorem Operators.Fresh.owned {h : Heap} {result : Value × Heap} (fresh : Fresh h result)
    (owned : h.Owned) : result.2.Owned ∧ result.2.Loose result.1 := by
  cases fresh with
  | plain scalar => exact ⟨owned, .plain h (Value.isContainer_of_isScalar scalar)⟩
  | array | sum => exact owned.newArray _
  | tuple => exact owned.newTuple _

theorem Heap.Assembled.owned {h : Heap} (assembled : h.Assembled) : h.Owned := by
  induction assembled with
  | empty => exact .empty
  | newCell _ loose ih => exact ih.newCell loose
  | newArray _ a ih => exact (ih.newArray a).1
  | newTuple _ t ih => exact (ih.newTuple t).1
  | set _ c v ih => exact ih.set c v
  | slot _ a key ih => exact ih.slot a key
  | copy _ v ih => exact (ih.copy v).1
  | join _ joins ih => exact ((Operators.join?_fresh joins).owned ih).1

/-- What acts do to the heap are operations of the heap. -/
theorem Heap.Assembled.lasting : Heap.Lasting Heap.Assembled := by
  have made {h : Heap} {result : Value × Heap} (assembled : h.Assembled)
      (fresh : Operators.Fresh h result) : result.2.Assembled := by
    cases fresh with
    | plain scalar => exact assembled
    | array | sum => exact assembled.newArray _
    | tuple => exact assembled.newTuple _
  constructor
  case made => exact made
  case held =>
    exact fun assembled fresh => (made assembled fresh).newCell (fresh.owned assembled.owned).2
  case written => exact fun c assembled fresh => (made assembled fresh).set c _
  case assigned => exact fun c d assembled => assembled.set c _
  case slot => exact fun a key assembled => assembled.slot a key

end CellScript
