import CellScript.Proofs.Arrays.Index
import CellScript.Proofs.Plan.Lasting
import CellScript.Proofs.Tuples.Index

/-! Heaps whose arrays and tuples were all made by the operations on them: from their items, by asking
for keys, by copying and by joining. So are those of every machine that runs programs, and the index
of each array and tuple in them is sound. -/
namespace CellScript

/-- The heaps that operations of the heap lead to, where arrays and tuples start from their items. -/
inductive Heap.Stocked : Heap → Prop where
  | empty : Stocked .empty
  | newCell {h : Heap} (before : Stocked h) (v : Value) : Stocked (h.newCell v).2
  | put {h : Heap} (before : Stocked h) (c : CellRef) (v : Value) : Stocked (h.put c v)
  | newArray {h : Heap} (before : Stocked h) (cells : List CellRef) :
    Stocked (h.newArray (.ofList cells)).2
  | newTuple {h : Heap} {fields : List (Text × CellRef)} {t : Tuple CellRef} (before : Stocked h)
      (made : Tuple.ofFields fields = .ok t) : Stocked (h.newTuple t).2
  | slot {h : Heap} (before : Stocked h) (a : ArrayRef) (key : Int64) : Stocked (h.slot a key).2
  | copy {h : Heap} (before : Stocked h) (v : Value) : Stocked (h.copy v).2
  | join {h : Heap} {l r : Value} {result : Value × Heap} (before : Stocked h)
      (joins : Operators.join? h l r = some (.ok result)) : Stocked result.2

namespace Heap

/-- The index of every array and of every tuple is sound. -/
structure Indexed (h : Heap) : Prop where
  arrays : ∀ a, (h.array a).Indexed
  tuples : ∀ t, (h.tuple t).Indexed

variable {h : Heap}

namespace Indexed

theorem empty : Indexed .empty := ⟨fun _ => .empty, fun _ => .empty⟩

theorem newArray (indexed : h.Indexed) {a : SparseArray CellRef} (sound : a.Indexed) :
    (h.newArray a).2.Indexed where
  arrays b := by
    rw [array_newArray]
    split
    · exact sound
    · exact indexed.arrays b
  tuples := indexed.tuples

theorem newTuple (indexed : h.Indexed) {t : Tuple CellRef} (sound : t.Indexed) :
    (h.newTuple t).2.Indexed where
  arrays := indexed.arrays
  tuples u := by
    rw [tuple_newTuple]
    split
    · exact sound
    · exact indexed.tuples u

theorem slot (indexed : h.Indexed) (a : ArrayRef) (key : Int64) : (h.slot a key).2.Indexed := by
  unfold Heap.slot
  split
  · exact indexed
  constructor
  case arrays =>
    intro b
    simp only [Heap.array, Heap.newCell, Array.getElem?_modify]
    have before := indexed.arrays b
    unfold Heap.array at before
    split
    · cases given : h.arrays[b.index]? with
      | none => exact .empty
      | some array =>
        rw [given] at before
        exact before.add key _
    · exact before
  case tuples => exact indexed.tuples

theorem copy (indexed : h.Indexed) (v : Value) : (h.copy v).2.Indexed := by
  cases v with
  | array a => exact indexed.newArray (indexed.arrays a)
  | tuple t => exact indexed.newTuple (indexed.tuples t)
  | _ => exact indexed

theorem fresh (indexed : h.Indexed) {result : Value × Heap} (fresh : Operators.Fresh h result) :
    result.2.Indexed := by
  cases fresh with
  | plain => exact indexed
  | array cells => exact indexed.newArray (.ofList cells)
  | sum a b => exact indexed.newArray ((indexed.arrays a).append (indexed.arrays b))
  | tuple made => exact indexed.newTuple (.ofFields made)

end Indexed

namespace Stocked

theorem indexed (stocked : h.Stocked) : h.Indexed := by
  induction stocked with
  | empty => exact .empty
  | newCell _ v ih => exact ⟨ih.arrays, ih.tuples⟩
  | put _ c v ih => exact ⟨ih.arrays, ih.tuples⟩
  | newArray _ cells ih => exact ih.newArray (.ofList cells)
  | newTuple _ made ih => exact ih.newTuple (.ofFields made)
  | slot _ a key ih => exact ih.slot a key
  | copy _ v ih => exact ih.copy v
  | join _ joins ih => exact ih.fresh (Operators.join?_fresh joins)

theorem set (stocked : h.Stocked) (c : CellRef) (v : Value) : (h.set c v).Stocked :=
  (stocked.copy v).put c _

theorem fresh (stocked : h.Stocked) {result : Value × Heap} (fresh : Operators.Fresh h result) :
    result.2.Stocked := by
  cases fresh with
  | plain => exact stocked
  | array cells => exact stocked.newArray cells
  | sum a b => exact stocked.join (l := .array a) (r := .array b) rfl
  | tuple made => exact stocked.newTuple made

theorem lasting : Lasting Stocked where
  made stocked fresh := stocked.fresh fresh
  held stocked fresh := (stocked.fresh fresh).newCell _
  written c stocked fresh := (stocked.fresh fresh).set c _
  assigned c _ stocked := stocked.set c _
  slot a key stocked := stocked.slot a key

end Stocked

end Heap

/-- Whatever programs a machine runs, its heap is stocked before each deed and after all of them. -/
theorem Chronicle.stocked {cfg : Settings} {past : List Deed} {m : Machine}
    (chronicle : Chronicle cfg past m) : Deed.Throughout Heap.Stocked past m :=
  Heap.Stocked.lasting.throughout (fun f stocked => stocked.newCell (.func f)) .empty chronicle

end CellScript
