import CellScript.Proofs.Arrays.Index
import CellScript.Proofs.Ownership.Holding
import CellScript.Proofs.Tuples.Fields

/-! What is seen through a cell: the keys and items of the array in it, or the fields of the tuple. Where
no two cells hold the same array or tuple, what happens to the one in a cell is not seen through any
other cell. -/
namespace CellScript

/-- What an array or tuple consists of: its keys and items, or its fields. -/
inductive Parts where
  | array (a : SparseArray CellRef)
  | tuple (t : Tuple CellRef)

namespace Parts

/-- The parts of the sum of two arrays or two tuples. -/
def join : Option Parts → Option Parts → Option Parts
  | some (array a), some (array b) => some (array (a ++ b))
  | some (tuple t), some (tuple u) => some (tuple (.ofDistinct (t.fields ++ u.fields)))
  | _, _ => none

/-- The second ones are the first ones, with nothing but keys and items that were added: what stood
under a key still stands there, and the items are still the same cells in the same order. -/
inductive Extend : Option Parts → Option Parts → Prop where
  | none : Extend none none
  | tuple (t : Tuple CellRef) : Extend (some (.tuple t)) (some (.tuple t))
  | array {a b : SparseArray CellRef} (items : a.items.toList <+: b.items.toList)
      (kept : ∀ key c, a.get? key = some c → b.get? key = some c) :
    Extend (some (.array a)) (some (.array b))

theorem Extend.refl (p : Option Parts) : Extend p p := by
  match p with
  | Option.none => exact .none
  | some (.tuple t) => exact .tuple t
  | some (.array a) => exact .array (List.prefix_refl _) fun _ _ found => found

theorem Extend.trans {p q r : Option Parts} (first : Extend p q) (second : Extend q r) :
    Extend p r := by
  cases first with
  | none => exact second
  | tuple t => exact second
  | array items kept =>
    cases second with
    | array items' kept' =>
      exact .array (items.trans items') fun key c found => kept' key c (kept key c found)

end Parts

namespace SparseArray

/-- An item under a new key moves no other one. -/
theorem extend_add {a : SparseArray CellRef} {key : Int64} (absent : a.get? key = none)
    (c : CellRef) : Parts.Extend (some (.array a)) (some (.array (a.add key c))) := by
  constructor
  case items =>
    unfold add
    rw [Array.toList_push]
    exact List.prefix_append _ _
  case kept =>
    intro other d found
    have apart : other ≠ key := by
      rintro rfl
      rw [absent] at found
      cases found
    unfold get? index? add at *
    dsimp only
    rw [lookup_insertKey_of_ne apart]
    cases place : a.keys.lookup other with
    | none =>
      rw [place] at found
      cases found
    | some i =>
      rw [place] at found
      have inside : i < a.items.size := (Array.getElem?_eq_some_iff.mp found).1
      exact (Array.getElem?_push_lt inside).trans ((Array.getElem?_eq_getElem inside).symm.trans found)

end SparseArray

namespace Heap

variable {h : Heap} {c d : CellRef}

/-- The parts of the array or tuple that a value refers to. -/
def partsOf (h : Heap) : Value → Option Parts
  | .array a => some (.array (h.array a))
  | .tuple t => some (.tuple (h.tuple t))
  | _ => none

/-- The parts of the array or tuple in a cell. -/
def parts? (h : Heap) (c : CellRef) : Option Parts := h.partsOf (h.get c)

/-- Asks for keys of the array in a cell, one after the other. -/
def demand (h : Heap) (c : CellRef) : List Int64 → Heap
  | [] => h
  | key :: keys =>
    match h.get c with
    | .array a => demand (h.slot a key).2 c keys
    | _ => h

theorem partsOf_newArray (known : h.Knows v) (a : SparseArray CellRef) :
    (h.newArray a).2.partsOf v = h.partsOf v := by
  cases v with
  | array b => rw [partsOf, partsOf, array_newArray_of_lt a known]
  | _ => rfl

theorem partsOf_newTuple (known : h.Knows v) (t : Tuple CellRef) :
    (h.newTuple t).2.partsOf v = h.partsOf v := by
  cases v with
  | tuple u => rw [partsOf, partsOf, tuple_newTuple_of_lt t known]
  | _ => rfl

theorem partsOf_newArray_self (h : Heap) (a : SparseArray CellRef) :
    (h.newArray a).2.partsOf (h.newArray a).1 = some (.array a) := by
  change some (Parts.array ((h.newArray a).2.array ⟨h.arrays.size⟩)) = _
  rw [array_newArray_self]

theorem partsOf_newTuple_self (h : Heap) (t : Tuple CellRef) :
    (h.newTuple t).2.partsOf (h.newTuple t).1 = some (.tuple t) := by
  change some (Parts.tuple ((h.newTuple t).2.tuple ⟨h.tuples.size⟩)) = _
  rw [tuple_newTuple_self]

/-- A copy has the same parts, and nothing else has other ones than before. -/
theorem partsOf_copy (h : Heap) (v : Value) :
    (h.copy v).2.partsOf (h.copy v).1 = h.partsOf v ∧
      (h.copy v).2.cells = h.cells ∧
      ∀ {w : Value}, h.Knows w → (h.copy v).2.partsOf w = h.partsOf w := by
  cases v with
  | array a =>
    exact ⟨h.partsOf_newArray_self _, rfl, fun known => partsOf_newArray known _⟩
  | tuple t =>
    exact ⟨h.partsOf_newTuple_self _, rfl, fun known => partsOf_newTuple known _⟩
  | _ => exact ⟨rfl, rfl, fun _ => rfl⟩

theorem get_put_of_ne (other : d ≠ c) (v : Value) : (h.put c v).get d = h.get d := by
  rcases Nat.lt_or_ge c.index h.cells.size with inside | outside
  · rw [get_put _ _ _ _ inside, if_neg other]
  · rw [put_of_size_le outside]

/-- A cell that is written holds something with the parts of what was written. -/
theorem parts?_set (inside : c.index < h.cells.size) (v : Value) :
    (h.set c v).parts? c = h.partsOf v := by
  obtain ⟨parts, cells, -⟩ := h.partsOf_copy v
  have inside : c.index < (h.copy v).2.cells.size := cells ▸ inside
  change (h.copy v).2.partsOf (((h.copy v).2.put c (h.copy v).1).get c) = _
  rw [get_put _ _ _ _ inside, if_pos rfl]
  exact parts

namespace Owned

/-- Writing a cell is not seen through any other cell. -/
theorem parts?_set_of_ne (owned : h.Owned) (other : d ≠ c) (v : Value) :
    (h.set c v).get d = h.get d ∧ (h.set c v).parts? d = h.parts? d := by
  obtain ⟨-, cells, parts⟩ := h.partsOf_copy v
  have held : (h.set c v).get d = h.get d := by
    change ((h.copy v).2.put c (h.copy v).1).get d = _
    rw [get_put_of_ne other]
    unfold Heap.get
    rw [cells]
  constructor
  · exact held
  · unfold parts?
    rw [held]
    exact parts (owned.known d)

/-- A key that is asked for is not seen through any other cell; the cell itself sees a key more, or
nothing new. -/
theorem parts?_slot {a : ArrayRef} (owned : h.Owned) (held : h.get c = .array a) (key : Int64) :
    (∀ d, d ≠ c → (h.slot a key).2.parts? d = h.parts? d) ∧
      Parts.Extend (h.parts? c) ((h.slot a key).2.parts? c) := by
  constructor
  case left =>
    intro d other
    unfold parts?
    rw [get_slot]
    cases here : h.get d with
    | array b =>
      have apart : b ≠ a := by
        rintro rfl
        have container : (h.get d).isContainer = true := by rw [here]; rfl
        exact other (owned.owner d c container (here.trans held.symm))
      simp only [partsOf, array_slot_of_ne apart]
    | tuple t => simp only [partsOf, Heap.tuple, tuples_slot]
    | _ => rfl
  case right =>
    have inside : a.index < h.arrays.size := by
      have known := owned.known c
      rw [held] at known
      exact known
    unfold parts?
    rw [get_slot, held]
    simp only [partsOf]
    rcases array_slot_self inside key with same | ⟨absent, fresh, more⟩
    · rw [same]
      exact .refl _
    · rw [more]
      exact SparseArray.extend_add absent fresh

/-- The same for keys that are asked for one after the other. -/
theorem parts?_demand (owned : h.Owned) (c : CellRef) (keys : List Int64) :
    (∀ d, (h.demand c keys).get d = h.get d) ∧
      (∀ d, d ≠ c → (h.demand c keys).parts? d = h.parts? d) ∧
      Parts.Extend (h.parts? c) ((h.demand c keys).parts? c) := by
  induction keys generalizing h with
  | nil => exact ⟨fun _ => rfl, fun _ _ => rfl, .refl _⟩
  | cons key keys ih =>
    unfold demand
    split
    next a held =>
      obtain ⟨others, more⟩ := owned.parts?_slot held key
      obtain ⟨same, others', more'⟩ := ih (owned.slot a key)
      refine ⟨fun d => (same d).trans (h.get_slot a key d), fun d other => ?_, more.trans more'⟩
      exact (others' d other).trans (others d other)
    next => exact ⟨fun _ => rfl, fun _ _ => rfl, .refl _⟩

end Owned

end Heap

namespace Operators

variable {h h' : Heap} {l r v : Value}

/-- The result of an operator has nothing to do with the parts of anything that was there. -/
theorem Fresh.others {result : Value × Heap} (fresh : Fresh h result) :
    result.2.cells = h.cells ∧ ∀ {w : Value}, h.Knows w → result.2.partsOf w = h.partsOf w := by
  cases fresh with
  | plain scalar => exact ⟨rfl, fun _ => rfl⟩
  | array | sum => exact ⟨rfl, fun known => Heap.partsOf_newArray known _⟩
  | tuple => exact ⟨rfl, fun known => Heap.partsOf_newTuple known _⟩

/-- A sum of arrays or tuples has the parts of both. -/
theorem partsOf_sum (ends : binary .add l r h = .ok (v, h')) :
    h'.partsOf v = Parts.join (h.partsOf l) (h.partsOf r) := by
  change (join? h l r).getD _ = _ at ends
  unfold join? at ends
  split at ends
  · cases ends
    rfl
  next a b =>
    cases ends
    exact h.partsOf_newArray_self _
  next t u =>
    rw [Option.getD_some] at ends
    split at ends
    next w appended =>
      cases ends
      obtain ⟨-, rfl⟩ := Tuple.ofFields_eq_ok.mp appended
      exact h.partsOf_newTuple_self _
    next => cases ends
  · rw [Option.getD_none] at ends
    split at ends
    next n numbers =>
      dsimp only at ends
      cases value : arithmetic .add n with
      | error fault =>
        rw [value] at ends
        cases ends
      | ok w =>
        rw [value] at ends
        cases ends
        have plain : h.partsOf v = none := by
          have scalar := arithmetic_scalar value
          cases v with
          | array | tuple => cases scalar
          | _ => rfl
        rw [plain]
        unfold numbers? at numbers
        split at numbers <;> first | rfl | cases numbers
    next => cases ends

end Operators

end CellScript
