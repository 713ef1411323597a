import CellScript.Proofs.Arrays.Joining
import CellScript.Proofs.Arrays.Writing
import Mathlib.Data.Int.Range
import Mathlib.Order.Bounds.Basic

/-! The text of values. What is written for a value is described without a bound on the depth, along
the chain of cells that leads to each part of it: a cell on its own chain is cut off, and every other
cell is written as its value. In a heap that programs build such a text exists for every value, there
is only one, and rendering gives it. -/
namespace CellScript

/-! ### The keys that are shown -/

namespace SparseArray

variable {α : Type} {a : SparseArray α}

/-- The integers that are keys of the array. -/
def keySet (a : SparseArray α) : Set Int :=
  {k | ∃ key : Int64, key.toInt = k ∧ (a.get? key).isSome}

theorem mem_keySet (indexed : a.Indexed) {k : Int} :
    k ∈ a.keySet ↔ ∃ e ∈ a.keys, e.1.toInt = k := by
  have known (key : Int64) : (a.get? key).isSome ↔ ∃ place, (key, place) ∈ a.keys := by
    rw [indexed.isSome_get?, index?, Option.isSome_iff_exists]
    exact exists_congr fun place => indexed.ascending.mem_iff.symm
  constructor
  · rintro ⟨key, same, some⟩
    obtain ⟨place, member⟩ := (known key).mp some
    exact ⟨(key, place), member, same⟩
  · rintro ⟨⟨key, place⟩, member, same⟩
    exact ⟨key, same, (known key).mpr ⟨place, member⟩⟩

theorem keySet_eq_empty (indexed : a.Indexed) : a.keySet = ∅ ↔ a.keys = [] := by
  rw [Set.eq_empty_iff_forall_notMem, List.eq_nil_iff_forall_not_mem]
  constructor
  · exact fun none e member => none e.1.toInt ((mem_keySet indexed).mpr ⟨e, member, rfl⟩)
  · intro none k member
    obtain ⟨e, member, -⟩ := (mem_keySet indexed).mp member
    exact none e member

/-- The first key is the smallest one. -/
theorem isLeast_first (indexed : a.Indexed) {key : Int64} (first : a.first? = some key) :
    IsLeast a.keySet key.toInt := by
  have ascending := indexed.ascending
  unfold first? at first
  rw [IsLeast, lowerBounds, Set.mem_ofPred_eq]
  simp only [mem_keySet indexed]
  cases keys : a.keys with
  | nil =>
    rw [keys] at first
    cases first
  | cons e rest =>
    rw [keys] at first ascending
    cases first
    refine ⟨⟨e, List.mem_cons_self, rfl⟩, ?_⟩
    rintro k ⟨f, member, rfl⟩
    rcases List.mem_cons.mp member with rfl | member
    · exact le_rfl
    · have below := (List.pairwise_cons.mp ascending).1 f member
      exact Int64.le_iff_toInt_le.mp (Int64.le_of_lt below)

/-- The length is the largest key, if there is one. -/
theorem isGreatest_length (indexed : a.Indexed) (given : a.keys ≠ []) :
    IsGreatest a.keySet a.length.toInt := by
  constructor
  · obtain ⟨place, last⟩ := length_mem given
    exact (mem_keySet indexed).mpr ⟨_, last, rfl⟩
  · intro k known
    obtain ⟨e, member, rfl⟩ := (mem_keySet indexed).mp known
    exact Int64.le_iff_toInt_le.mp (le_length indexed.ascending member)

theorem first?_eq_none : a.first? = none ↔ a.keys = [] := by
  unfold first?
  cases a.keys <;> simp

theorem mem_window {x : α} (shown : some x ∈ a.window) : ∃ key, a.get? key = some x := by
  unfold window at shown
  split at shown
  · cases shown
  · obtain ⟨i, -, found⟩ := List.mem_map.mp shown
    exact ⟨_, found⟩

/-- What is shown stands under the integers from the first key, or from one, to the last key. -/
theorem window_eq {key : Int64} (first : a.first? = some key) :
    a.window = (Int.range (min 1 key.toInt) (a.length.toInt + 1)).map fun k => a.get? (Int64.ofInt k) := by
  have start : (if key < 1 then key else 1).toInt = min 1 key.toInt := by
    have one : Int64.toInt 1 = 1 := rfl
    split
    next below =>
      have below := Int64.lt_iff_toInt_lt.mp below
      omega
    next notBelow =>
      have notBelow := mt Int64.lt_iff_toInt_lt.mpr notBelow
      omega
  unfold window
  rw [first]
  dsimp only
  generalize (if key < 1 then key else 1) = lo at start
  rw [Int.range, List.map_map, ← start]
  have count : a.length.toInt - lo.toInt + 1 = a.length.toInt + 1 - lo.toInt := by omega
  rw [count]
  refine List.map_congr_left fun i _ => ?_
  dsimp only [Function.comp]
  rw [Int64.ofInt_add, Int64.ofInt_toInt]
  rfl

end SparseArray

/-! ### What is written -/

namespace Heap

/-- The cell is an element of the array or of the tuple that the value is. -/
def Holds (h : Heap) (c : CellRef) : Value → Prop
  | .array a => ∃ key, (h.array a).get? key = some c
  | .tuple t => ∃ name, (name, c) ∈ (h.tuple t).fields
  | _ => False

/-- What is written for the cell under a key, if there is one. -/
def slotText (texts : CellRef → Text) : Option CellRef → Text
  | some c => texts c
  | none => utf8 "empty"

/-- What is written for a tuple element with its label. -/
def fieldText (texts : CellRef → Text) (field : Text × CellRef) : Text :=
  (if field.1.isEmpty then [] else field.1 ++ utf8 " := ") ++ texts field.2

/-- The text of a value, given the texts of its element cells. An array with keys has an item for each
integer from the smaller of one and its smallest key to its largest key. -/
inductive Writes (h : Heap) (texts : CellRef → Text) : Value → Text → Prop where
  | bare {a : ArrayRef} (none : (h.array a).keySet = ∅) : Writes h texts (.array a) (utf8 "[]")
  | array {a : ArrayRef} {lo hi : Int} (least : IsLeast (h.array a).keySet lo)
      (greatest : IsGreatest (h.array a).keySet hi) :
      Writes h texts (.array a) (utf8 "[" ++ Text.join (utf8 ", ") ((Int.range (min 1 lo) (hi + 1)).map
        fun k => slotText texts ((h.array a).get? (Int64.ofInt k))) ++ utf8 "]")
  | tuple (t : TupleRef) :
      Writes h texts (.tuple t) (utf8 "\x7b" ++
        Text.join (utf8 ", ") ((h.tuple t).fields.map (fieldText texts)) ++ utf8 "\x7d")
  | plain {v : Value} (noArray : ∀ a, v ≠ .array a) (noTuple : ∀ t, v ≠ .tuple t) :
      Writes h texts v (h.renderWith texts v)

/-- The text of a cell at the end of a chain of cells, each an element of the one before. A cell that
already lies on the chain is cut off. -/
inductive Shows (h : Heap) : (chain : List CellRef) → CellRef → Text → Prop where
  | again {chain : List CellRef} {c : CellRef} (member : c ∈ chain) : Shows h chain c (utf8 "...")
  | fresh {chain : List CellRef} {c : CellRef} {t : Text} (texts : CellRef → Text) (first : c ∉ chain)
      (elements : ∀ d, h.Holds d (h.get c) → Shows h (c :: chain) d (texts d))
      (writes : h.Writes texts (h.get c) t) : Shows h chain c t

/-- The text of a value, from which the chains of cells start. -/
def Rendered (h : Heap) (v : Value) (t : Text) : Prop :=
  ∃ texts, (∀ d, h.Holds d v → h.Shows [] d (texts d)) ∧ h.Writes texts v t

/-- Elements are cells of the heap, and the index of each array is sound. -/
structure Whole (h : Heap) : Prop where
  bound {c : CellRef} {v : Value} (held : h.Holds c v) : c.index < h.cells.size
  arrays : ∀ a, (h.array a).Indexed

variable {h : Heap} {texts : CellRef → Text} {v : Value} {t : Text}

theorem renderWith_array (a : ArrayRef) :
    h.renderWith texts (.array a) =
      utf8 "[" ++ Text.join (utf8 ", ") ((h.array a).window.map (slotText texts)) ++ utf8 "]" := rfl

theorem renderWith_tuple (t : TupleRef) :
    h.renderWith texts (.tuple t) =
      utf8 "\x7b" ++ Text.join (utf8 ", ") ((h.tuple t).fields.map (fieldText texts)) ++ utf8 "\x7d" := rfl

/-- Rendering depends on the texts of the element cells only. -/
theorem renderWith_congr {others : CellRef → Text} (same : ∀ c, h.Holds c v → texts c = others c) :
    h.renderWith texts v = h.renderWith others v := by
  cases v with
  | array a =>
    rw [renderWith_array, renderWith_array]
    congr 3
    refine List.map_congr_left fun shown member => ?_
    cases shown with
    | none => rfl
    | some c => exact same c (SparseArray.mem_window member)
  | tuple t =>
    rw [renderWith_tuple, renderWith_tuple]
    congr 3
    refine List.map_congr_left fun field member => ?_
    rw [fieldText, fieldText, same field.2 ⟨field.1, member⟩]
  | _ => rfl

theorem writes_iff (arrays : ∀ a, (h.array a).Indexed) :
    h.Writes texts v t ↔ h.renderWith texts v = t := by
  constructor
  · intro writes
    cases writes with
    | @bare a none =>
      have nothing := (SparseArray.keySet_eq_empty (arrays a)).mp none
      rw [renderWith_array, SparseArray.window, SparseArray.first?_eq_none.mpr nothing]
      rfl
    | @array a lo hi least greatest =>
      have given : (h.array a).keys ≠ [] := fun nothing => by
        have none := (SparseArray.keySet_eq_empty (arrays a)).mpr nothing
        rw [none] at least
        exact least.1
      obtain ⟨key, first⟩ : ∃ key, (h.array a).first? = some key :=
        Option.ne_none_iff_exists'.mp (mt SparseArray.first?_eq_none.mp given)
      obtain rfl := least.unique (SparseArray.isLeast_first (arrays a) first)
      obtain rfl := greatest.unique (SparseArray.isGreatest_length (arrays a) given)
      rw [renderWith_array, SparseArray.window_eq first, List.map_map]
      rfl
    | tuple => exact renderWith_tuple _
    | plain => rfl
  · rintro rfl
    cases v with
    | array a =>
      rw [renderWith_array]
      cases first : (h.array a).first? with
      | none =>
        have nothing := SparseArray.first?_eq_none.mp first
        rw [SparseArray.window, first]
        exact .bare ((SparseArray.keySet_eq_empty (arrays a)).mpr nothing)
      | some key =>
        have given : (h.array a).keys ≠ [] := fun nothing => by
          rw [SparseArray.first?_eq_none.mpr nothing] at first
          cases first
        rw [SparseArray.window_eq first, List.map_map]
        exact .array (SparseArray.isLeast_first (arrays a) first)
          (SparseArray.isGreatest_length (arrays a) given)
    | tuple t => exact .tuple t
    | _ => exact .plain nofun nofun

/-- A chain of different cells as long as the heap has every cell on it. -/
theorem mem_of_length_ge {chain : List CellRef} (nodup : chain.Nodup)
    (inside : ∀ d ∈ chain, d.index < h.cells.size) (long : h.cells.size ≤ chain.length) {c : CellRef}
    (bound : c.index < h.cells.size) : c ∈ chain := by
  by_contra absent
  have injective : Function.Injective CellRef.index := fun d e same => by
    cases d
    cases e
    exact congrArg CellRef.mk same
  have distinct : ((c :: chain).map CellRef.index).Nodup :=
    (List.nodup_cons.mpr ⟨absent, nodup⟩).map injective
  have within : (c :: chain).map CellRef.index ⊆ List.range h.cells.size := by
    intro i member
    obtain ⟨d, known, rfl⟩ := List.mem_map.mp member
    rw [List.mem_range]
    rcases List.mem_cons.mp known with rfl | member
    · exact bound
    · exact inside d member
  have short := (List.subperm_of_subset distinct within).length_le
  rw [List.length_map, List.length_cons, List.length_range] at short
  omega

/-- Along any chain of different cells there is exactly the text that rendering gives, if it may go as
deep as there are cells left. -/
theorem Whole.shows_iff (whole : h.Whole) (levels : Nat) {chain : List CellRef} (nodup : chain.Nodup)
    (inside : ∀ d ∈ chain, d.index < h.cells.size) (enough : h.cells.size ≤ levels + chain.length)
    {c : CellRef} (bound : c.index < h.cells.size) :
    h.Shows chain c t ↔ h.renderCell levels chain c = t := by
  induction levels generalizing chain c t with
  | zero =>
    rw [Nat.zero_add] at enough
    have member := mem_of_length_ge nodup inside enough bound
    constructor
    · intro shows
      cases shows with
      | again => rfl
      | fresh texts first => exact absurd member first
    · rintro rfl
      exact .again member
  | succ levels ih =>
    rw [renderCell]
    by_cases member : c ∈ chain
    · rw [if_pos (List.contains_iff_mem.mpr member)]
      constructor
      · intro shows
        cases shows with
        | again => rfl
        | fresh texts first => exact absurd member first
      · rintro rfl
        exact .again member
    · rw [if_neg (mt List.contains_iff_mem.mp member)]
      have deeper {d : CellRef} {t : Text} (held : h.Holds d (h.get c)) :=
        ih (t := t) (List.nodup_cons.mpr ⟨member, nodup⟩) (List.forall_mem_cons.mpr ⟨bound, inside⟩)
          (by rw [List.length_cons]; omega) (whole.bound held)
      constructor
      · intro shows
        cases shows with
        | again found => exact absurd found member
        | fresh texts _ elements writes =>
          rw [← (writes_iff whole.arrays).mp writes]
          exact renderWith_congr fun d held => (deeper held).mp (elements d held)
      · intro same
        exact .fresh _ member (fun d held => (deeper held).mpr rfl) ((writes_iff whole.arrays).mpr same)

theorem Whole.rendered_iff (whole : h.Whole) : h.Rendered v t ↔ h.render v = t := by
  have start {d : CellRef} {t : Text} (held : h.Holds d v) :=
    whole.shows_iff (t := t) h.cells.size List.nodup_nil (fun _ member => absurd member List.not_mem_nil)
      (Nat.le_add_right _ _) (whole.bound held)
  constructor
  · rintro ⟨texts, elements, writes⟩
    rw [← (writes_iff whole.arrays).mp writes]
    exact renderWith_congr fun d held => (start held).mp (elements d held)
  · intro same
    exact ⟨_, fun d held => (start held).mpr rfl, (writes_iff whole.arrays).mpr same⟩

end Heap

/-- Elements of arrays and tuples are cells that are there, whatever programs a machine runs. -/
theorem Machine.Arises.whole {cfg : Settings} {m : Machine} (arises : m.Arises cfg) : m.heap.Whole := by
  obtain ⟨R, within⟩ := arises.closed
  have heap : Heap.Alike _ R m.heap m.heap := within.heap
  refine ⟨fun {c v} held => ?_, arises.stocked.indexed.arrays⟩
  cases v with
  | array a =>
    obtain ⟨key, found⟩ := held
    have alike := (heap.arrays a).get? key
    rw [found] at alike
    cases alike with
    | some paired => exact heap.left_bound paired
  | tuple t =>
    obtain ⟨name, member⟩ := held
    exact heap.left_bound (List.forall₂_same.mp (heap.tuples t).fields _ member).2
  | _ => exact held.elim

/-- In a heap that programs build, every value has exactly one text, in which a cell is cut off just
where it lies on the chain of cells that leads to it. Rendering gives this text, and printing it leaves
the heap as it is. -/
theorem rendering_cuts_cycles {cfg : Settings} {m : Machine} (arises : m.Arises cfg) (v : Value) :
    (∀ t, m.heap.Rendered v t ↔ m.heap.render v = t) ∧
      ∀ span, (Run.reached (Run.print span v m)).heap = m.heap := by
  refine ⟨fun t => arises.whole.rendered_iff, fun span => ?_⟩
  unfold Run.print
  dsimp only
  split <;> rfl

namespace Example

/-- Puts an array into itself, under its first key, and a number behind it. -/
def ouroboros : Program :=
  ⟨.zero, .mk .zero [
    .declare .zero [97] (lone (.literal .zero (.array .zero []))),
    .assign .zero (.ref .zero [97] [.subscript .zero (number 1)]) (some (.known .set))
      (lone (.ref .zero [97] [])),
    .assign .zero (.ref .zero [97] [.subscript .zero (number 3)]) (some (.known .set)) (number 5)] false⟩

def coiled : Machine := (Eval.program ⟨.right, 8⟩ 60 ouroboros .initial).2

theorem coiled_arises : coiled.Arises ⟨.right, 8⟩ := .after (Chronicle.initial.program 60 ouroboros)

end Example

open Example in
/-- The array is written in full, and in it the cell under its first key once more before it is cut off. -/
theorem rendering_cuts_cycles_coiled :
    coiled.Arises ⟨.right, 8⟩ ∧ ∃ c, coiled.scopes.lookup? [97] = some c ∧
      coiled.heap.Rendered (coiled.heap.get c) (utf8 "[[...], empty, 5]") := by
  refine ⟨coiled_arises, ⟨0⟩, by decide +kernel, ?_⟩
  exact ((rendering_cuts_cycles coiled_arises _).1 _).mpr (by decide +kernel)

end CellScript
