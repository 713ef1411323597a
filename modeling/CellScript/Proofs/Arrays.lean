import CellScript.Proofs.Arrays.Joining
import CellScript.Proofs.Discipline
import CellScript.Proofs.Stock

/-! Arrays in a heap. Every array that programs make has a sound index, joining two arrays makes a third
one and leaves all others as they are, and its items are those of both as long as keys stay within
the integers of 64 bits. -/
namespace CellScript

theorem Operators.binary_arrays (a b : ArrayRef) (h : Heap) :
    binary .add (.array a) (.array b) h = .ok (h.newArray (h.array a ++ h.array b)) := rfl

/-- Keys of an array have places of their own among its items, and there are items exactly where there
are keys, so look-ups and listings find an item for every key. The sum of two arrays, which may be
the same one, is a new array; both stay as they are. It has the items of both, and under each key
what the first has there, or else what the second has where the key was before it was moved. -/
theorem array_indexes_stay_sound {h : Heap} (stocked : h.Stocked) (a b : ArrayRef) :
    ((h.array a).Indexed ∧
      (∀ key, ((h.array a).get? key).isSome = ((h.array a).index? key).isSome) ∧
      (h.array a).entries.map (·.1) = (h.array a).keys.map (·.1)) ∧
    ∃ h', Operators.binary .add (.array a) (.array b) h = .ok (.array ⟨h.arrays.size⟩, h') ∧
      h'.cells = h.cells ∧ h'.tuples = h.tuples ∧
      (∀ c, c.index < h.arrays.size → h'.array c = h.array c) ∧
      (h'.array ⟨h.arrays.size⟩).items.size = (h.array a).items.size + (h.array b).items.size ∧
      ∀ key, (h'.array ⟨h.arrays.size⟩).get? key =
        ((h.array a).get? key).or ((h.array b).get? (key - (h.array a).length)) := by
  have indexed := stocked.indexed.arrays a
  constructor
  · exact ⟨indexed, indexed.isSome_get?, indexed.keys_entries⟩
  · refine ⟨(h.newArray (h.array a ++ h.array b)).2, Operators.binary_arrays a b h, rfl, rfl, ?_, ?_, ?_⟩
    · intro c old
      exact Heap.array_newArray_of_lt _ old
    · rw [Heap.array_newArray_self]
      exact Array.size_append
    · intro key
      rw [Heap.array_newArray_self]
      exact indexed.get?_append (h.array b) key

namespace Example

def number (k : Int64) : Expr := lone (.literal .zero (.integer .zero k))

/-- Writes a number under a key of an array. -/
def put (name : Text) (key k : Int64) : Statement :=
  .assign .zero (.ref .zero name [.subscript .zero (number key)]) (some (.known .set)) (number k)

/-- Declares arrays of one number each. The first one gets the smallest and the largest key then, the
last one the key zero. -/
def edging : Program :=
  ⟨.zero, .mk .zero [
    .declare .zero [120] (lone (.literal .zero (.array .zero [number 7]))),
    put [120] Int64.maxValue 8,
    put [120] Int64.minValue 9,
    .declare .zero [121] (lone (.literal .zero (.array .zero [number 5]))),
    .declare .zero [122] (lone (.literal .zero (.array .zero [number 4]))),
    put [122] 0 6] false⟩

/-- The machine after the declarations. Its heap has the arrays in this order. -/
def edged : Machine := (Eval.program ⟨.right, 8⟩ 60 edging .initial).2

theorem edged_stocked : edged.heap.Stocked := by
  unfold edged
  exact (Chronicle.initial.program 60 edging).stocked.2

end Example

open Example in
/-- The first array joined to itself: of its moved keys, the smallest one is taken already. -/
theorem array_indexes_stay_sound_doubled :
    edged.heap.Stocked ∧ ∃ h', Operators.binary .add (.array ⟨0⟩) (.array ⟨0⟩) edged.heap =
        .ok (.array ⟨edged.heap.arrays.size⟩, h') ∧
      (h'.array ⟨edged.heap.arrays.size⟩).items.size = 6 ∧
      (h'.array ⟨edged.heap.arrays.size⟩).get? Int64.minValue = some ⟨6⟩ ∧
      (h'.array ⟨edged.heap.arrays.size⟩).get? (-1) = some ⟨6⟩ := by
  obtain ⟨-, h', joins, -, -, -, size, under⟩ :=
    array_indexes_stay_sound edged_stocked ⟨0⟩ ⟨0⟩
  refine ⟨edged_stocked, h', joins, ?_, ?_, ?_⟩
  · rw [size]
    decide +kernel
  · rw [under]
    decide +kernel
  · rw [under]
    decide +kernel

/-- Where the second array has positive keys only, the sum of two arrays keeps all their items, each
under its key or as far beyond the first array as it was from zero, exactly if the lengths add up to
an integer of 64 bits. -/
theorem joined_arrays_keep_items {h : Heap} (stocked : h.Stocked) (a b : ArrayRef)
    (positive : ∀ e ∈ (h.array b).keys, 1 ≤ e.1) :
    ∃ h', Operators.binary .add (.array a) (.array b) h = .ok (.array ⟨h.arrays.size⟩, h') ∧
      h'.array ⟨h.arrays.size⟩ = h.array a ++ h.array b ∧
      (SparseArray.Keeps (h.array a) (h.array b) ↔
        (h.array a).length.toInt + (h.array b).length.toInt ≤ Int64.maxValue.toInt) := by
  have first := stocked.indexed.arrays a
  have second := stocked.indexed.arrays b
  exact ⟨_, Operators.binary_arrays a b h, Heap.array_newArray_self h _,
    SparseArray.keeps_iff first second positive⟩

open Example in
/-- The second array keeps its item where it is joined to itself, and loses it where it is joined to
the first one. -/
theorem joined_arrays_keep_items_plain :
    (∀ e ∈ (edged.heap.array ⟨1⟩).keys, 1 ≤ e.1) ∧
      SparseArray.Keeps (edged.heap.array ⟨1⟩) (edged.heap.array ⟨1⟩) ∧
      ¬SparseArray.Keeps (edged.heap.array ⟨0⟩) (edged.heap.array ⟨1⟩) := by
  have positive : ∀ e ∈ (edged.heap.array ⟨1⟩).keys, 1 ≤ e.1 := by decide +kernel
  obtain ⟨-, -, -, keeps⟩ := joined_arrays_keep_items edged_stocked ⟨1⟩ ⟨1⟩ positive
  obtain ⟨-, -, -, loses⟩ := joined_arrays_keep_items edged_stocked ⟨0⟩ ⟨1⟩ positive
  refine ⟨positive, keeps.mpr ?_, mt loses.mp ?_⟩
  · decide +kernel
  · decide +kernel

open Example in
/-- The second array has a positive key, but joined to the first array it adds none: moved beyond the
largest key there is, its key becomes the smallest one, which is taken. -/
theorem moved_item_lost :
    edged.heap.Stocked ∧ (∀ e ∈ (edged.heap.array ⟨1⟩).keys, 1 ≤ e.1) ∧
      (edged.heap.array ⟨0⟩).keys.length = 3 ∧ (edged.heap.array ⟨1⟩).keys.length = 1 ∧
      ∃ h', Operators.binary .add (.array ⟨0⟩) (.array ⟨1⟩) edged.heap =
          .ok (.array ⟨edged.heap.arrays.size⟩, h') ∧
        (h'.array ⟨edged.heap.arrays.size⟩).keys = (edged.heap.array ⟨0⟩).keys := by
  refine ⟨edged_stocked, by decide +kernel, by decide +kernel, by decide +kernel,
    (edged.heap.newArray (edged.heap.array ⟨0⟩ ++ edged.heap.array ⟨1⟩)).2,
    Operators.binary_arrays ⟨0⟩ ⟨1⟩ edged.heap, ?_⟩
  rw [Heap.array_newArray_self]
  decide +kernel

/-! ### Grouping -/

namespace Heap

/-- After two sums, the second of which a fresh cell holds. -/
def summed (h : Heap) (first second : SparseArray CellRef) : Heap :=
  (((h.newArray first).2.newArray second).2.newCell (.array ⟨h.arrays.size + 1⟩)).2

theorem array_summed (h : Heap) (first second : SparseArray CellRef) (a : ArrayRef) :
    (h.summed first second).array a =
      if a.index = h.arrays.size + 1 then second else if a.index = h.arrays.size then first
      else h.array a := by
  have size : (h.newArray first).2.arrays.size = h.arrays.size + 1 := Array.size_push _
  change ((h.newArray first).2.newArray second).2.array a = _
  rw [array_newArray, array_newArray, size]

theorem cells_summed (h : Heap) (first second : SparseArray CellRef) :
    (h.summed first second).cells = h.cells.push (.array ⟨h.arrays.size + 1⟩) := rfl

theorem tuples_summed (h : Heap) (first second : SparseArray CellRef) :
    (h.summed first second).tuples = h.tuples := rfl

theorem get_summed (h : Heap) (first second : SparseArray CellRef) :
    (h.summed first second).get ⟨h.cells.size⟩ = .array ⟨h.arrays.size + 1⟩ :=
  get_newCell_self _ _

end Heap

namespace Operators

variable {h : Heap} {a b c : ArrayRef}

theorem reduce_sums_left (there : c.index < h.arrays.size) :
    reduce .left (.array a) [(.known .add, .array b), (.known .add, .array c)] h =
      .ok ((h.newArray (h.array a ++ h.array b)).2.newArray (h.array a ++ h.array b ++ h.array c)) := by
  let k := (h.newArray (h.array a ++ h.array b)).2
  have sums : reduce .left (.array a) [(.known .add, .array b), (.known .add, .array c)] h =
      .ok (k.newArray (k.array ⟨h.arrays.size⟩ ++ k.array c)) := rfl
  rw [sums, Heap.array_newArray_of_lt _ there, Heap.array_newArray_self]

theorem reduce_sums_right (there : a.index < h.arrays.size) :
    reduce .right (.array a) [(.known .add, .array b), (.known .add, .array c)] h =
      .ok ((h.newArray (h.array b ++ h.array c)).2.newArray (h.array a ++ (h.array b ++ h.array c))) := by
  let k := (h.newArray (h.array b ++ h.array c)).2
  have sums : reduce .right (.array a) [(.known .add, .array b), (.known .add, .array c)] h =
      .ok (k.newArray (k.array a ++ k.array ⟨h.arrays.size⟩)) := rfl
  rw [sums, Heap.array_newArray_of_lt _ there, Heap.array_newArray_self]

end Operators

namespace Eval

open Run

def values (cfg : Settings) (n : Nat) (xs : List Operand) : Run (List Value) :=
  xs.mapM fun x => do contents (← operand cfg n x)

variable {cfg : Settings} {n : Nat} {span : Span} {m m' : Machine}

theorem expr_eq_reduce {x y : Operand} {xs : List Operand} {ops : List (Word BinaryOp)} {v : Value}
    {vs : List Value} (count : (y :: xs).length = ops.length)
    (evaluated : values cfg n (x :: y :: xs) m = .ok (v :: vs) m') :
    expr cfg (n + 1) (.mk span (x :: y :: xs) ops) m = EStateM.bind
      (onHeap span (Operators.reduce cfg.associativity v (ops.zip vs))) newCell m' := by
  rw [values, List.mapM_cons] at evaluated
  obtain ⟨u, m₁, read, rest⟩ := run_bind_ok evaluated
  obtain ⟨c, m₂, first, held⟩ := run_bind_ok read
  cases held
  obtain ⟨us, m₃, others, same⟩ := run_bind_ok rest
  cases same
  simp only [expr, if_neg (not_not_intro count), List.isEmpty_cons, Bool.false_eq_true, if_false]
  rw [run_bind_of_ok first]
  change (List.mapM (fun x => do contents (← operand cfg n x)) (y :: xs) >>= _) m₁ = _
  rw [run_bind_of_ok others]
  rfl

/-- Three operands that are arrays are summed to one that a fresh cell holds. -/
theorem expr_sums (span : Span) {x y z : Operand} {a b c : ArrayRef} {first second : SparseArray CellRef}
    (evaluated : values cfg n [x, y, z] m = .ok [.array a, .array b, .array c] m')
    (reduced : Operators.reduce cfg.associativity (.array a)
      [(.known .add, .array b), (.known .add, .array c)] m'.heap =
        .ok ((m'.heap.newArray first).2.newArray second)) :
    expr cfg (n + 1) (.mk span [x, y, z] [.known .add, .known .add]) m =
      .ok ⟨m'.heap.cells.size⟩ { m' with heap := m'.heap.summed first second } := by
  have size : (m'.heap.newArray first).2.arrays.size = m'.heap.arrays.size + 1 := Array.size_push _
  rw [expr_eq_reduce rfl evaluated]
  change EStateM.bind (onHeap span (Operators.reduce cfg.associativity (.array a)
    [(.known .add, .array b), (.known .add, .array c)])) newCell m' = _
  unfold EStateM.bind onHeap
  rw [reduced]
  rw [Heap.summed, ← size]
  rfl

end Eval

/-- Where the second of three arrays has no negative length and its keys are moved within the integers
of 64 bits, both groupings of their sum are the same array. So an expression that sums three such
operands ends alike, whatever the associativity: in the same cell, and the machines differ in
nothing but the array that the first sum made on the way. -/
theorem array_sums_group_freely {m' : Machine} (stocked : m'.heap.Stocked) {a b c : ArrayRef}
    (nonneg : 0 ≤ (m'.heap.array b).length)
    (fits : ∀ e ∈ (m'.heap.array b).keys, SparseArray.Fits e.1 (m'.heap.array a).length) :
    m'.heap.array a ++ m'.heap.array b ++ m'.heap.array c =
      m'.heap.array a ++ (m'.heap.array b ++ m'.heap.array c) ∧
    (a.index < m'.heap.arrays.size → c.index < m'.heap.arrays.size →
      ∀ (limit n : Nat) (span : Span) (x y z : Operand) (m : Machine),
        (∀ assoc, Eval.values ⟨assoc, limit⟩ n [x, y, z] m =
          .ok [.array a, .array b, .array c] m') →
        ∃ d r k k',
          Eval.expr ⟨.left, limit⟩ (n + 1) (.mk span [x, y, z] [.known .add, .known .add]) m =
            .ok d { m' with heap := k } ∧
          Eval.expr ⟨.right, limit⟩ (n + 1) (.mk span [x, y, z] [.known .add, .known .add]) m =
            .ok d { m' with heap := k' } ∧
          k.get d = .array r ∧ k'.get d = .array r ∧ k'.array r = k.array r ∧
          k.array r = m'.heap.array a ++ m'.heap.array b ++ m'.heap.array c ∧
          k'.cells = k.cells ∧ k'.tuples = k.tuples ∧
          ∀ q, q.index ≠ m'.heap.arrays.size → k'.array q = k.array q) := by
  have groups := SparseArray.append_assoc (stocked.indexed.arrays a) (stocked.indexed.arrays b)
    nonneg fits (m'.heap.array c)
  constructor
  · exact groups
  · intro thereFirst thereLast limit n span x y z m evaluated
    have left := Eval.expr_sums span (evaluated .left)
      (Operators.reduce_sums_left thereLast)
    have right := Eval.expr_sums span (evaluated .right)
      (Operators.reduce_sums_right thereFirst)
    refine ⟨_, ⟨m'.heap.arrays.size + 1⟩, _, _, left, right,
      m'.heap.get_summed _ _, m'.heap.get_summed _ _, ?_, ?_, ?_, ?_, ?_⟩
    · rw [Heap.array_summed, Heap.array_summed, if_pos rfl, if_pos rfl, groups]
    · rw [Heap.array_summed, if_pos rfl]
    · rw [Heap.cells_summed, Heap.cells_summed]
    · rw [Heap.tuples_summed, Heap.tuples_summed]
    · intro q other
      rw [Heap.array_summed, Heap.array_summed, if_neg other, if_neg other, groups]

namespace Example

def mention (name : Text) : Operand := .mk .zero none (.ref .zero name []) none

def arrayNamed? (m : Machine) (name : Text) : Option ArrayRef :=
  match m.scopes.lookup name with
  | .ok c =>
    match m.heap.get c with
    | .array a => some a
    | _ => none
  | .error _ => none

theorem operand_mention (cfg : Settings) {m : Machine} {name : Text} {c : CellRef}
    (found : m.scopes.lookup name = .ok c) : Eval.operand cfg 2 (mention name) m = .ok c m := by
  have read : Eval.operand cfg 2 (mention name) m = EStateM.bind (EStateM.bind
    (Run.locate .zero (m.scopes.lookup name)) EStateM.pure) EStateM.pure m := rfl
  rw [read, found]
  rfl

theorem contents_mention (cfg : Settings) {m : Machine} {name : Text} {a : ArrayRef}
    (named : arrayNamed? m name = some a) :
    (do Run.contents (← Eval.operand cfg 2 (mention name))) m = .ok (.array a) m := by
  unfold arrayNamed? at named
  split at named
  next c found =>
    rw [run_bind_of_ok (operand_mention cfg found), Run.contents]
    split at named
    next held =>
      cases named
      rw [held]
    next => cases named
  next => cases named

theorem values_mention (cfg : Settings) {m : Machine} {names : List Text} {arrays : List ArrayRef}
    (named : List.Forall₂ (fun name a => arrayNamed? m name = some a) names arrays) :
    Eval.values cfg 2 (names.map mention) m = .ok (arrays.map .array) m := by
  induction named with
  | nil => rfl
  | cons first _ ih =>
    rw [Eval.values, List.map_cons, List.mapM_cons, run_bind_of_ok (contents_mention cfg first)]
    rw [Eval.values] at ih
    rw [run_bind_of_ok ih]
    rfl

end Example

open Example in
/-- The second array, the third one, whose first moved key is taken, and the one with the extreme
keys, of which the largest becomes one above the smallest. -/
theorem array_sums_group_freely_edged :
    0 ≤ (edged.heap.array ⟨2⟩).length ∧
    (∀ e ∈ (edged.heap.array ⟨2⟩).keys, SparseArray.Fits e.1 (edged.heap.array ⟨1⟩).length) ∧
    edged.heap.array ⟨1⟩ ++ edged.heap.array ⟨2⟩ ++ edged.heap.array ⟨0⟩ =
      edged.heap.array ⟨1⟩ ++ (edged.heap.array ⟨2⟩ ++ edged.heap.array ⟨0⟩) ∧
    ∃ d r k k',
      Eval.expr ⟨.left, 8⟩ 3 (.mk .zero [mention [121], mention [122], mention [120]]
        [.known .add, .known .add]) edged = .ok d { edged with heap := k } ∧
      Eval.expr ⟨.right, 8⟩ 3 (.mk .zero [mention [121], mention [122], mention [120]]
        [.known .add, .known .add]) edged = .ok d { edged with heap := k' } ∧
      k.get d = .array r ∧ k'.get d = .array r ∧ k'.array r = k.array r ∧
      (k.array r).entries = [(-9223372036854775807, ⟨3⟩), (-9223372036854775806, ⟨6⟩), (1, ⟨8⟩),
        (2, ⟨10⟩), (3, ⟨0⟩)] := by
  have nonneg : 0 ≤ (edged.heap.array ⟨2⟩).length := by decide +kernel
  have fits : ∀ e ∈ (edged.heap.array ⟨2⟩).keys,
      SparseArray.Fits e.1 (edged.heap.array ⟨1⟩).length := by
    unfold SparseArray.Fits
    decide +kernel
  have first : (1 : Nat) < edged.heap.arrays.size := by decide +kernel
  have last : (0 : Nat) < edged.heap.arrays.size := by decide +kernel
  have named : List.Forall₂ (fun name a => arrayNamed? edged name = some a)
      [[121], [122], [120]] [⟨1⟩, ⟨2⟩, ⟨0⟩] := by
    refine .cons ?_ (.cons ?_ (.cons ?_ .nil))
    all_goals decide +kernel
  obtain ⟨groups, ends⟩ := array_sums_group_freely (c := ⟨0⟩) edged_stocked nonneg fits
  obtain ⟨d, r, k, k', left, right, holds, holds', same, sum, -⟩ :=
    ends first last 8 2 .zero _ _ _ edged fun assoc => values_mention ⟨assoc, 8⟩ named
  refine ⟨nonneg, fits, groups, d, r, k, k', left, right, holds, holds', same, ?_⟩
  rw [sum]
  decide +kernel

end CellScript
