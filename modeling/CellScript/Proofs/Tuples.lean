import CellScript.Proofs.Discipline
import CellScript.Proofs.Stock

/-! Tuples in a heap. Every tuple that programs make has a sound index; fields make one exactly if no
two of them have the same name, and two tuples can be joined exactly if they have no name in common.
How three of them are grouped makes no difference. -/
namespace CellScript

namespace Run

variable {fields : List (Text × CellRef)}

theorem newTuple_of_distinct (distinct : (Tuple.fieldNames fields).Nodup) (span : Span) (m : Machine) :
    newTuple span fields m = .ok (.tuple ⟨m.heap.tuples.size⟩)
      { m with heap := (m.heap.newTuple (.ofDistinct fields)).2 } := by
  rw [newTuple, Tuple.ofFields_of_distinct distinct]
  rfl

theorem newTuple_of_again (again : ¬(Tuple.fieldNames fields).Nodup) (span : Span) (m : Machine) :
    ∃ name, newTuple span fields m = .error (.fault ⟨.duplicateKey name, span, []⟩) m := by
  obtain ⟨name, failed⟩ := Tuple.exists_ofFields_eq_error_iff.mpr again
  refine ⟨name, ?_⟩
  rw [newTuple, failed]
  rfl

end Run

namespace Operators

variable {h : Heap} {t u : TupleRef}

theorem binary_tuples (t u : TupleRef) (h : Heap) :
    binary .add (.tuple t) (.tuple u) h = match (h.tuple t).append? (h.tuple u) with
      | .ok w => .ok (h.newTuple w)
      | .error name => .error (.duplicateKey name) := rfl

theorem binary_tuples_of_disjoint (indexed : h.Indexed)
    (disjoint : (h.tuple t).names.Disjoint (h.tuple u).names) :
    binary .add (.tuple t) (.tuple u) h =
      .ok (h.newTuple (.ofDistinct ((h.tuple t).fields ++ (h.tuple u).fields))) := by
  have distinct := ((indexed.tuples t).nodup_fieldNames_append (indexed.tuples u)).mpr disjoint
  rw [binary_tuples, Tuple.append?, Tuple.ofFields_of_distinct distinct]

theorem binary_tuples_of_shared (indexed : h.Indexed)
    (shared : ¬(h.tuple t).names.Disjoint (h.tuple u).names) :
    ∃ name, binary .add (.tuple t) (.tuple u) h = .error (.duplicateKey name) := by
  have again := mt ((indexed.tuples t).nodup_fieldNames_append (indexed.tuples u)).mp shared
  obtain ⟨name, failed⟩ := Tuple.exists_ofFields_eq_error_iff.mpr again
  refine ⟨name, ?_⟩
  rw [binary_tuples, Tuple.append?, failed]

end Operators

/-- The items, the labels and the index of a tuple belong together. -/
structure Tuple.Coherent {α : Type} (t : Tuple α) : Prop where
  labelled : t.labels.size = t.items.size
  apart : t.labels.toList.Pairwise fun name other => name ≠ [] → name ≠ other
  index (name : Text) (place : Nat) :
    t.position? name = some place ↔ name ≠ [] ∧ t.labels[place]? = some name
  /-- A name gives the item at its place, as does the place counted from one. -/
  item (name : Text) (place : Nat) : t.position? name = some place →
    ∃ x, t.items[place]? = some x ∧ t.field? name = some x ∧
      ∀ position : Int64, position.toInt = place + 1 → t.get? position = some x
  absent (name : Text) : t.position? name = none → t.field? name = none
  listed (name : Text) : name ∈ t.names ↔ (t.position? name).isSome = true
  ordered : t.names.Pairwise fun name other =>
    ∃ place later, t.position? name = some place ∧ t.position? other = some later ∧ place < later

theorem Tuple.Indexed.coherent {α : Type} {t : Tuple α} (indexed : t.Indexed) : t.Coherent where
  labelled := indexed.labelled
  apart := nodup_named_iff.mp indexed.distinct
  index _ _ := indexed.position?_eq_some_iff
  item _ _ := indexed.item_of_position?
  absent name unknown := by
    rw [field?, unknown, Option.bind_none]
  listed _ := indexed.mem_names_iff
  ordered := indexed.names_pairwise

/-- The parts of every tuple belong together. Fields make a tuple, with their items and names in order,
exactly if no two of them have the same name that is not empty. Two tuples, which may be the same
one, have a sum exactly if they have no name in common; its items and labels are those of the first
and then those of the second, and both stay as they are. All else is a conflict of keys. Of three
tuples, both groupings have the same sum or none. -/
theorem tuples_join_by_name {h : Heap} (stocked : h.Stocked) (t u v : TupleRef) :
    (h.tuple t).Coherent ∧
    (∀ (fields : List (Text × CellRef)) (span : Span) (m : Machine),
      ((fields.Pairwise fun f g => f.1 ≠ [] → f.1 ≠ g.1) → ∃ h',
        Run.newTuple span fields m = .ok (.tuple ⟨m.heap.tuples.size⟩) { m with heap := h' } ∧
          (h'.tuple ⟨m.heap.tuples.size⟩).items.toList = fields.map (·.2) ∧
          (h'.tuple ⟨m.heap.tuples.size⟩).labels.toList = fields.map (·.1)) ∧
      (¬(fields.Pairwise fun f g => f.1 ≠ [] → f.1 ≠ g.1) → ∃ fault : Fault,
        fault.kind = .keyConflict ∧
          Run.newTuple span fields m = .error (.fault ⟨fault, span, []⟩) m)) ∧
    ((h.tuple t).names.Disjoint (h.tuple u).names → ∃ h',
      Operators.binary .add (.tuple t) (.tuple u) h = .ok (.tuple ⟨h.tuples.size⟩, h') ∧
        (h'.tuple ⟨h.tuples.size⟩).items = (h.tuple t).items ++ (h.tuple u).items ∧
        (h'.tuple ⟨h.tuples.size⟩).labels = (h.tuple t).labels ++ (h.tuple u).labels ∧
        ∀ w, w.index < h.tuples.size → h'.tuple w = h.tuple w) ∧
    (¬(h.tuple t).names.Disjoint (h.tuple u).names → ∃ fault : Fault,
      fault.kind = .keyConflict ∧ Operators.binary .add (.tuple t) (.tuple u) h = .error fault) ∧
    (((h.tuple t).append? (h.tuple u)).bind (·.append? (h.tuple v))).toOption =
      (((h.tuple u).append? (h.tuple v)).bind (h.tuple t).append?).toOption := by
  have first := stocked.indexed.tuples t
  have second := stocked.indexed.tuples u
  refine ⟨first.coherent, ?_, ?_, ?_, Tuple.append?_assoc _ _ _⟩
  · intro fields span m
    constructor
    · intro distinct
      have distinct := Tuple.nodup_fieldNames_iff.mpr distinct
      refine ⟨(m.heap.newTuple (.ofDistinct fields)).2, Run.newTuple_of_distinct distinct span m, ?_, ?_⟩
      · rw [Heap.tuple_newTuple_self, Tuple.items_ofDistinct]
      · rw [Heap.tuple_newTuple_self, Tuple.labels_ofDistinct]
    · intro again
      obtain ⟨name, failed⟩ := Run.newTuple_of_again (mt Tuple.nodup_fieldNames_iff.mp again) span m
      exact ⟨.duplicateKey name, rfl, failed⟩
  · intro disjoint
    refine ⟨(h.newTuple (.ofDistinct ((h.tuple t).fields ++ (h.tuple u).fields))).2,
      Operators.binary_tuples_of_disjoint stocked.indexed disjoint, ?_, ?_, ?_⟩
    · rw [Heap.tuple_newTuple_self, first.items_append second]
    · rw [Heap.tuple_newTuple_self, first.labels_append second]
    · intro w old
      exact Heap.tuple_newTuple_of_lt _ old
  · intro shared
    obtain ⟨name, failed⟩ := Operators.binary_tuples_of_shared stocked.indexed shared
    exact ⟨.duplicateKey name, rfl, failed⟩

namespace Example

/-- Declares a tuple with a name and one number without, and a tuple with another name. -/
def naming : Program :=
  let field (name : Text) (k : Int64) : Element :=
    .mk .zero name (lone (.literal .zero (.integer .zero k)))
  ⟨.zero, .mk .zero [
    .declare .zero [120] (lone (.literal .zero (.tuple .zero [field [97] 7, field [] 8]))),
    .declare .zero [121] (lone (.literal .zero (.tuple .zero [field [98] 9])))] false⟩

def named : Machine := (Eval.program ⟨.right, 8⟩ 60 naming .initial).2

theorem named_stocked : named.heap.Stocked := by
  unfold named
  exact (Chronicle.initial.program 60 naming).stocked.2

end Example

open Example in
/-- The second tuple can be joined to the first one, which cannot be joined to itself. -/
theorem tuples_join_by_name_twice :
    named.heap.Stocked ∧
    (∃ h', Operators.binary .add (.tuple ⟨0⟩) (.tuple ⟨1⟩) named.heap =
        .ok (.tuple ⟨named.heap.tuples.size⟩, h') ∧
      (h'.tuple ⟨named.heap.tuples.size⟩).labels = #[[97], [], [98]]) ∧
    ∃ fault : Fault, fault.kind = .keyConflict ∧
      Operators.binary .add (.tuple ⟨0⟩) (.tuple ⟨0⟩) named.heap = .error fault := by
  have apart : ∀ name ∈ (named.heap.tuple ⟨0⟩).names, name ∉ (named.heap.tuple ⟨1⟩).names := by
    decide +kernel
  have member : [97] ∈ (named.heap.tuple ⟨0⟩).names := by decide +kernel
  have shared : ¬(named.heap.tuple ⟨0⟩).names.Disjoint (named.heap.tuple ⟨0⟩).names :=
    fun disjoint => disjoint member member
  obtain ⟨-, -, joins, -⟩ := tuples_join_by_name named_stocked ⟨0⟩ ⟨1⟩ ⟨0⟩
  obtain ⟨h', sum, -, labels, -⟩ := joins fun name member => apart name member
  obtain ⟨-, -, -, fails, -⟩ := tuples_join_by_name named_stocked ⟨0⟩ ⟨0⟩ ⟨0⟩
  refine ⟨named_stocked, ⟨h', sum, ?_⟩, fails shared⟩
  rw [labels]
  decide +kernel

end CellScript
