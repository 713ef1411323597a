import CellScript.Proofs.Alike
import CellScript.Proofs.Tuples.Fields

/-! Heaps that are alike. Arrays and tuples stand at the same places on both sides; only cells may
stand at different ones, because a heap may hold cells that the other one never needed. -/
namespace CellScript

variable {σ : Code → Code → Prop} {R S : Pairing}

/-- Functions that differ in their code as `σ` allows. -/
structure Closure.Alike (σ : Code → Code → Prop) (R : Pairing) (f g : Closure) : Prop where
  span : f.span = g.span
  params : f.params = g.params
  code : σ f.code g.code
  captured : Bindings.Alike R f.captured g.captured

theorem Closure.Alike.mono (more : R ≤ S) {f g : Closure} (alike : Closure.Alike σ R f g) :
    Closure.Alike σ S f g :=
  { alike with captured := alike.captured.mono more }

inductive Value.Alike (σ : Code → Code → Prop) (R : Pairing) : Value → Value → Prop where
  | empty : Value.Alike σ R .empty .empty
  | int (n : Int64) : Value.Alike σ R (.int n) (.int n)
  | real (x : Float) : Value.Alike σ R (.real x) (.real x)
  | bool (b : Bool) : Value.Alike σ R (.bool b) (.bool b)
  | string (t : Text) : Value.Alike σ R (.string t) (.string t)
  | array (a : ArrayRef) : Value.Alike σ R (.array a) (.array a)
  | tuple (t : TupleRef) : Value.Alike σ R (.tuple t) (.tuple t)
  | func {f g : Closure} (closures : Closure.Alike σ R f g) : Value.Alike σ R (.func f) (.func g)

namespace Value.Alike

theorem mono (more : R ≤ S) {v w : Value} (alike : Value.Alike σ R v w) : Value.Alike σ S v w := by
  cases alike with
  | func closures => exact .func (closures.mono more)
  | _ => constructor

theorem type_eq {v w : Value} (alike : Value.Alike σ R v w) : v.type = w.type := by
  cases alike <;> rfl

theorem flip {v w : Value} (alike : Value.Alike σ R v w) : Value.Alike (Function.swap σ) R.flip w v := by
  cases alike with
  | func closures =>
    exact .func ⟨closures.span.symm, closures.params.symm, closures.code, closures.captured.flip⟩
  | _ => constructor

end Value.Alike

theorem forall₂_getElem? {α β : Type} {P : α → β → Prop} {xs : List α} {ys : List β}
    (related : List.Forall₂ P xs ys) (i : Nat) : Option.Rel P xs[i]? ys[i]? := by
  induction related generalizing i with
  | nil => exact .none
  | cons head _ ih =>
    cases i with
    | zero => exact .some head
    | succ i => simpa only [List.getElem?_cons_succ] using ih i

/-- The same keys, with items that stand for each other. -/
structure SparseArray.Alike (R : Pairing) (a b : SparseArray CellRef) : Prop where
  keys : a.keys = b.keys
  items : List.Forall₂ R.pairs a.items.toList b.items.toList

namespace SparseArray.Alike

variable {a b a' b' : SparseArray CellRef}

theorem mono (more : R ≤ S) (alike : SparseArray.Alike R a b) : SparseArray.Alike S a b :=
  ⟨alike.keys, alike.items.imp more⟩

theorem flip (alike : SparseArray.Alike R a b) : SparseArray.Alike R.flip b a :=
  ⟨alike.keys.symm, alike.items.flip⟩

theorem empty : SparseArray.Alike R .empty .empty := ⟨rfl, .nil⟩

theorem size (alike : SparseArray.Alike R a b) : a.items.size = b.items.size :=
  alike.items.length_eq

theorem get? (alike : SparseArray.Alike R a b) (key : Int64) :
    Option.Rel R.pairs (a.get? key) (b.get? key) := by
  unfold SparseArray.get? SparseArray.index?
  rw [alike.keys]
  cases b.keys.lookup key with
  | none => exact .none
  | some i =>
    simp only [Option.bind_some]
    rw [← Array.getElem?_toList, ← Array.getElem?_toList]
    exact forall₂_getElem? alike.items i

theorem add (alike : SparseArray.Alike R a b) {c d : CellRef} (paired : R.pairs c d)
    (key : Int64) : SparseArray.Alike R (a.add key c) (b.add key d) := by
  refine ⟨by simp only [SparseArray.add, alike.keys, alike.size], ?_⟩
  simp only [SparseArray.add, Array.toList_push]
  exact List.rel_append alike.items (.cons paired .nil)

theorem ofList {cs ds : List CellRef} (paired : List.Forall₂ R.pairs cs ds) :
    SparseArray.Alike R (.ofList cs) (.ofList ds) := by
  have further {a b : SparseArray CellRef} (alike : SparseArray.Alike R a b) :
      SparseArray.Alike R (cs.foldl (fun a c => a.add (Int64.ofNat (a.items.size + 1)) c) a)
        (ds.foldl (fun a c => a.add (Int64.ofNat (a.items.size + 1)) c) b) := by
    induction paired generalizing a b with
    | nil => exact alike
    | cons head _ ih =>
      rw [List.foldl_cons, List.foldl_cons, alike.size]
      exact ih (alike.add head _)
  exact further .empty

theorem append (left : SparseArray.Alike R a b) (right : SparseArray.Alike R a' b') :
    SparseArray.Alike R (a ++ a') (b ++ b') := by
  refine ⟨?_, ?_⟩
  · change List.foldl _ a.keys a'.keys = List.foldl _ b.keys b'.keys
    simp only [SparseArray.length, left.keys, right.keys, left.size]
  · change List.Forall₂ R.pairs (a.items ++ a'.items).toList (b.items ++ b'.items).toList
    simp only [Array.toList_append]
    exact List.rel_append left.items right.items

end SparseArray.Alike

/-- The same names, with items that stand for each other. -/
structure Tuple.Alike (R : Pairing) (t u : Tuple CellRef) : Prop where
  items : List.Forall₂ R.pairs t.items.toList u.items.toList
  labels : t.labels = u.labels
  places : t.places = u.places

namespace Tuple.Alike

variable {t u : Tuple CellRef}

theorem mono (more : R ≤ S) (alike : Tuple.Alike R t u) : Tuple.Alike S t u :=
  ⟨alike.items.imp more, alike.labels, alike.places⟩

theorem flip (alike : Tuple.Alike R t u) : Tuple.Alike R.flip u t :=
  ⟨alike.items.flip, alike.labels.symm, alike.places.symm⟩

theorem empty : Tuple.Alike R .empty .empty := ⟨.nil, rfl, rfl⟩

theorem size (alike : Tuple.Alike R t u) : t.size = u.size := alike.items.length_eq

theorem fields (alike : Tuple.Alike R t u) : Bindings.Alike R t.fields u.fields := by
  unfold Tuple.fields
  rw [alike.labels]
  generalize u.labels.toList = labels
  have items := alike.items
  generalize t.items.toList = cs at items
  generalize u.items.toList = ds at items
  induction items generalizing labels with
  | nil => cases labels <;> exact .nil
  | cons head _ ih =>
    cases labels with
    | nil => exact .nil
    | cons label labels => exact .cons ⟨rfl, head⟩ (ih labels)

theorem item (alike : Tuple.Alike R t u) (place : Nat) :
    Option.Rel R.pairs t.items[place]? u.items[place]? := by
  rw [← Array.getElem?_toList, ← Array.getElem?_toList]
  exact forall₂_getElem? alike.items place

theorem get? (alike : Tuple.Alike R t u) (position : Int64) :
    Option.Rel R.pairs (t.get? position) (u.get? position) := by
  unfold Tuple.get?
  split
  · exact .none
  · exact alike.item _

theorem position? (alike : Tuple.Alike R t u) (name : Text) : t.position? name = u.position? name := by
  unfold Tuple.position?
  rw [alike.places]

theorem field? (alike : Tuple.Alike R t u) (name : Text) :
    Option.Rel R.pairs (t.field? name) (u.field? name) := by
  unfold Tuple.field?
  rw [alike.position? name]
  cases u.position? name with
  | none => exact .none
  | some i => exact alike.item i

theorem push (alike : Tuple.Alike R t u) (name : Text) {c d : CellRef} (paired : R.pairs c d) :
    Tuple.Alike R (t.push name c) (u.push name d) := by
  constructor
  case items =>
    simp only [Tuple.push, Array.toList_push]
    exact List.rel_append alike.items (.cons paired .nil)
  case labels => simp only [Tuple.push, alike.labels]
  case places => simp only [Tuple.push, alike.places, alike.size]

theorem pushAll {fs gs : List (Text × CellRef)} (alike : Tuple.Alike R t u)
    (fields : Bindings.Alike R fs gs) : Tuple.Alike R (t.pushAll fs) (u.pushAll gs) := by
  induction fields generalizing t u with
  | nil => exact alike
  | @cons f g _ _ head _ ih =>
    obtain ⟨name, c⟩ := f
    obtain ⟨_, d⟩ := g
    obtain ⟨rfl, paired⟩ := head
    exact ih (alike.push name paired)

theorem ofDistinct {fs gs : List (Text × CellRef)} (fields : Bindings.Alike R fs gs) :
    Tuple.Alike R (.ofDistinct fs) (.ofDistinct gs) :=
  pushAll .empty fields

theorem repeated? {fs gs : List (Text × CellRef)} (alike : Bindings.Alike R fs gs)
    (seen : List Text) : Tuple.repeated? seen fs = Tuple.repeated? seen gs := by
  induction alike generalizing seen with
  | nil => rfl
  | @cons f g _ _ head _ ih =>
    obtain ⟨name, c⟩ := f
    obtain ⟨_, d⟩ := g
    obtain ⟨rfl, _⟩ := head
    unfold Tuple.repeated?
    split
    · exact ih seen
    · split
      · rfl
      · exact ih _

/-- Either both are tuples, or both repeat the same name. -/
theorem ofFields {fs gs : List (Text × CellRef)} (alike : Bindings.Alike R fs gs) :
    (Tuple.ofFields fs = .ok (.ofDistinct fs) ∧ Tuple.ofFields gs = .ok (.ofDistinct gs)) ∨
      ∃ name, Tuple.ofFields fs = .error name ∧ Tuple.ofFields gs = .error name := by
  rw [Tuple.ofFields_eq, Tuple.ofFields_eq, repeated? alike]
  cases Tuple.repeated? [] gs with
  | none => exact .inl ⟨rfl, rfl⟩
  | some name => exact .inr ⟨name, rfl, rfl⟩

end Tuple.Alike

/-! ### Heaps -/

structure Heap.Alike (σ : Code → Code → Prop) (R : Pairing) (h k : Heap) : Prop where
  left_bound : ∀ {c d}, R.pairs c d → c.index < h.cells.size
  right_bound : ∀ {c d}, R.pairs c d → d.index < k.cells.size
  contents : ∀ {c d}, R.pairs c d → Value.Alike σ R (h.get c) (k.get d)
  arrays_size : h.arrays.size = k.arrays.size
  arrays : ∀ a, SparseArray.Alike R (h.array a) (k.array a)
  tuples_size : h.tuples.size = k.tuples.size
  tuples : ∀ t, Tuple.Alike R (h.tuple t) (k.tuple t)

namespace Heap.Alike

variable {h k : Heap} {v w : Value} {c d : CellRef}

theorem empty (σ : Code → Code → Prop) : Heap.Alike σ (.upTo 0) .empty .empty where
  left_bound paired := absurd paired.2 (Nat.not_lt_zero _)
  right_bound paired := absurd paired.2 (Nat.not_lt_zero _)
  contents paired := absurd paired.2 (Nat.not_lt_zero _)
  arrays_size := rfl
  arrays _ := .empty
  tuples_size := rfl
  tuples _ := .empty

theorem left_fresh (alike : Heap.Alike σ R h k) (d : CellRef) : ¬ R.pairs ⟨h.cells.size⟩ d :=
  fun paired => Nat.lt_irrefl _ (alike.left_bound paired)

theorem right_fresh (alike : Heap.Alike σ R h k) (c : CellRef) : ¬ R.pairs c ⟨k.cells.size⟩ :=
  fun paired => Nat.lt_irrefl _ (alike.right_bound paired)

/-- Fresh cells on both sides become partners. -/
theorem newCell (alike : Heap.Alike σ R h k) (values : Value.Alike σ R v w) :
    ∃ S, R ≤ S ∧ S.pairs (h.newCell v).1 (k.newCell w).1 ∧
      Heap.Alike σ S (h.newCell v).2 (k.newCell w).2 := by
  let S := R.extend ⟨h.cells.size⟩ ⟨k.cells.size⟩ alike.left_fresh alike.right_fresh
  have more : R ≤ S := Pairing.le_extend
  refine ⟨S, more, .inr ⟨rfl, rfl⟩, ?_⟩
  constructor
  case left_bound =>
    rintro c d (old | ⟨rfl, rfl⟩)
    · simpa [Heap.newCell] using Nat.lt_succ_of_lt (alike.left_bound old)
    · simp [Heap.newCell]
  case right_bound =>
    rintro c d (old | ⟨rfl, rfl⟩)
    · simpa [Heap.newCell] using Nat.lt_succ_of_lt (alike.right_bound old)
    · simp [Heap.newCell]
  case contents =>
    rintro c d (old | ⟨rfl, rfl⟩)
    · rw [get_newCell_of_lt (alike.left_bound old), get_newCell_of_lt (alike.right_bound old)]
      exact (alike.contents old).mono more
    · have left : (h.newCell v).2.get ⟨h.cells.size⟩ = v := h.get_newCell_self v
      have right : (k.newCell w).2.get ⟨k.cells.size⟩ = w := k.get_newCell_self w
      rw [left, right]
      exact values.mono more
  case arrays_size => exact alike.arrays_size
  case arrays => exact fun a => (alike.arrays a).mono more
  case tuples_size => exact alike.tuples_size
  case tuples => exact fun t => (alike.tuples t).mono more

/-- A cell that only the left heap has changes nothing. -/
theorem newCell_left (alike : Heap.Alike σ R h k) (v : Value) :
    Heap.Alike σ R (h.newCell v).2 k where
  left_bound := fun paired => by
    simpa [Heap.newCell] using Nat.lt_succ_of_lt (alike.left_bound paired)
  right_bound := alike.right_bound
  contents := fun paired => by
    rw [get_newCell_of_lt (alike.left_bound paired)]
    exact alike.contents paired
  arrays_size := alike.arrays_size
  arrays := alike.arrays
  tuples_size := alike.tuples_size
  tuples := alike.tuples

theorem flip (alike : Heap.Alike σ R h k) : Heap.Alike (Function.swap σ) R.flip k h where
  left_bound := alike.right_bound
  right_bound := alike.left_bound
  contents := fun paired => (alike.contents paired).flip
  arrays_size := alike.arrays_size.symm
  arrays := fun a => (alike.arrays a).flip
  tuples_size := alike.tuples_size.symm
  tuples := fun t => (alike.tuples t).flip

theorem put (alike : Heap.Alike σ R h k) (paired : R.pairs c d) (values : Value.Alike σ R v w) :
    Heap.Alike σ R (h.put c v) (k.put d w) where
  left_bound := fun old => by simpa [Heap.put] using alike.left_bound old
  right_bound := fun old => by simpa [Heap.put] using alike.right_bound old
  contents := fun {x y} old => by
    rw [get_put _ _ _ _ (alike.left_bound paired), get_put _ _ _ _ (alike.right_bound paired)]
    by_cases same : x = c
    · subst same
      rw [if_pos rfl, if_pos (R.left_unique old paired)]
      exact values
    · have apart : y ≠ d := fun equal => same (R.right_unique old (equal ▸ paired))
      rw [if_neg same, if_neg apart]
      exact alike.contents old
  arrays_size := alike.arrays_size
  arrays := alike.arrays
  tuples_size := alike.tuples_size
  tuples := alike.tuples

theorem newArray (alike : Heap.Alike σ R h k) {a b : SparseArray CellRef}
    (items : SparseArray.Alike R a b) :
    Value.Alike σ R (h.newArray a).1 (k.newArray b).1 ∧
      Heap.Alike σ R (h.newArray a).2 (k.newArray b).2 := by
  constructor
  · change Value.Alike σ R (.array ⟨h.arrays.size⟩) (.array ⟨k.arrays.size⟩)
    rw [alike.arrays_size]
    exact .array _
  · constructor
    case left_bound => exact alike.left_bound
    case right_bound => exact alike.right_bound
    case contents => exact alike.contents
    case arrays_size => simp [Heap.newArray, alike.arrays_size]
    case arrays =>
      intro x
      rw [array_newArray, array_newArray, alike.arrays_size]
      split
      · exact items
      · exact alike.arrays x
    case tuples_size => exact alike.tuples_size
    case tuples => exact alike.tuples

theorem newTuple (alike : Heap.Alike σ R h k) {t u : Tuple CellRef} (fields : Tuple.Alike R t u) :
    Value.Alike σ R (h.newTuple t).1 (k.newTuple u).1 ∧
      Heap.Alike σ R (h.newTuple t).2 (k.newTuple u).2 := by
  constructor
  · change Value.Alike σ R (.tuple ⟨h.tuples.size⟩) (.tuple ⟨k.tuples.size⟩)
    rw [alike.tuples_size]
    exact .tuple _
  · constructor
    case left_bound => exact alike.left_bound
    case right_bound => exact alike.right_bound
    case contents => exact alike.contents
    case arrays_size => exact alike.arrays_size
    case arrays => exact alike.arrays
    case tuples_size => simp [Heap.newTuple, alike.tuples_size]
    case tuples =>
      intro x
      rw [tuple_newTuple, tuple_newTuple, alike.tuples_size]
      split
      · exact fields
      · exact alike.tuples x

theorem copy (alike : Heap.Alike σ R h k) (values : Value.Alike σ R v w) :
    Value.Alike σ R (h.copy v).1 (k.copy w).1 ∧ Heap.Alike σ R (h.copy v).2 (k.copy w).2 := by
  cases values with
  | array a => exact alike.newArray (alike.arrays a)
  | tuple t => exact alike.newTuple (alike.tuples t)
  | empty => exact ⟨.empty, alike⟩
  | int n => exact ⟨.int n, alike⟩
  | real x => exact ⟨.real x, alike⟩
  | bool b => exact ⟨.bool b, alike⟩
  | string t => exact ⟨.string t, alike⟩
  | func closures => exact ⟨.func closures, alike⟩

theorem set (alike : Heap.Alike σ R h k) (paired : R.pairs c d) (values : Value.Alike σ R v w) :
    Heap.Alike σ R (h.set c v) (k.set d w) :=
  (alike.copy values).2.put paired (alike.copy values).1

/-- One array is changed on both sides. -/
theorem modifyArray (alike : Heap.Alike σ R h k) (a : ArrayRef)
    {f g : SparseArray CellRef → SparseArray CellRef}
    (each : ∀ x y, SparseArray.Alike R x y → SparseArray.Alike R (f x) (g y)) :
    Heap.Alike σ R { h with arrays := h.arrays.modify a.index f }
      { k with arrays := k.arrays.modify a.index g } where
  left_bound := alike.left_bound
  right_bound := alike.right_bound
  contents := alike.contents
  arrays_size := by simpa using alike.arrays_size
  arrays := fun b => by
    have old := alike.arrays b
    simp only [Heap.array, Array.getElem?_modify] at old ⊢
    by_cases same : a.index = b.index
    · by_cases inside : b.index < h.arrays.size
      · have inside' : b.index < k.arrays.size := alike.arrays_size ▸ inside
        simp only [Array.getElem?_eq_getElem inside, Array.getElem?_eq_getElem inside',
          Option.getD_some] at old
        simpa [same, inside, inside'] using each _ _ old
      · have outside' : ¬ b.index < k.arrays.size := alike.arrays_size ▸ inside
        simpa [same, inside, outside'] using SparseArray.Alike.empty
    · simpa only [same, if_false] using old
  tuples_size := alike.tuples_size
  tuples := alike.tuples

theorem slot (alike : Heap.Alike σ R h k) (a : ArrayRef) (key : Int64) :
    ∃ S, R ≤ S ∧ S.pairs (h.slot a key).1 (k.slot a key).1 ∧
      Heap.Alike σ S (h.slot a key).2 (k.slot a key).2 := by
  unfold Heap.slot
  have found := (alike.arrays a).get? key
  cases left : (h.array a).get? key with
  | some c =>
    rw [left] at found
    cases right : (k.array a).get? key with
    | none => rw [right] at found; cases found
    | some d =>
      rw [right] at found
      cases found with
      | some paired => exact ⟨R, le_rfl, paired, alike⟩
  | none =>
    rw [left] at found
    cases right : (k.array a).get? key with
    | some d => rw [right] at found; cases found
    | none =>
      obtain ⟨S, more, paired, fresh⟩ := alike.newCell (v := .empty) (w := .empty) .empty
      exact ⟨S, more, paired, fresh.modifyArray a fun _ _ items => items.add paired key⟩

end Heap.Alike

end CellScript
