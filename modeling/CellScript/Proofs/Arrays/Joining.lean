import CellScript.Proofs.Arrays.Index

/-! Joined arrays: how long they are, when every item stays, and that grouping makes no difference. All
of it hangs on whether keys are moved beyond the integers of 64 bits. -/
namespace CellScript.SparseArray

variable {α : Type} {a b : SparseArray α}

/-- The sum of two integers of 64 bits is one again. -/
def Fits (x y : Int64) : Prop :=
  Int64.minValue.toInt ≤ x.toInt + y.toInt ∧ x.toInt + y.toInt ≤ Int64.maxValue.toInt

theorem Fits.toInt_add {x y : Int64} (fits : Fits x y) : (x + y).toInt = x.toInt + y.toInt := by
  obtain ⟨lower, upper⟩ := fits
  rw [Int64.toInt_minValue] at lower
  rw [Int64.toInt_maxValue] at upper
  rw [Int64.toInt_add, Int.bmod_eq_emod]
  split <;> omega

/-! ### The largest key -/

theorem length_of_nil (none : a.keys = []) : a.length = 0 := by
  rw [length, none]
  rfl

theorem keys_eq_concat (given : a.keys ≠ []) :
    ∃ before place, a.keys = before ++ [(a.length, place)] := by
  obtain ⟨before, ⟨key, place⟩, split⟩ := (List.eq_nil_or_concat a.keys).resolve_left given
  rw [List.concat_eq_append] at split
  refine ⟨before, place, ?_⟩
  rw [length, split, List.getLast?_concat]
  rfl

theorem length_mem (given : a.keys ≠ []) : ∃ place, (a.length, place) ∈ a.keys := by
  obtain ⟨before, place, split⟩ := keys_eq_concat given
  refine ⟨place, ?_⟩
  rw [split]
  exact List.mem_append_right _ List.mem_cons_self

theorem le_length (ascending : Ascending a.keys) {e : Int64 × Nat} (member : e ∈ a.keys) :
    e.1 ≤ a.length := by
  obtain ⟨before, place, split⟩ := keys_eq_concat (List.ne_nil_of_mem member)
  unfold Ascending at ascending
  rw [split] at ascending member
  rcases List.mem_append.mp member with member | member
  · have below := (List.pairwise_append.mp ascending).2.2 e member (a.length, place)
      List.mem_cons_self
    exact Int64.le_of_lt below
  · rw [List.mem_singleton.mp member]
    exact Int64.le_rfl

theorem length_eq (ascending : Ascending a.keys) {e : Int64 × Nat} (member : e ∈ a.keys)
    (greatest : ∀ f ∈ a.keys, f.1 ≤ e.1) : a.length = e.1 := by
  obtain ⟨place, last⟩ := length_mem (List.ne_nil_of_mem member)
  have above := greatest (a.length, place) last
  exact Int64.le_antisymm above (le_length ascending member)

/-- The length of a sum, also where the largest key of the second array meets that of the first. -/
theorem length_append (ascending : Ascending a.keys) (ascending' : Ascending b.keys)
    (nonneg : 0 ≤ b.length) (fits : ∀ e ∈ b.keys, Fits e.1 a.length) :
    (a ++ b).length = a.length + b.length := by
  by_cases none : b.keys = []
  · rw [length_of_nil none, Int64.add_zero]
    rw [length, keys_append, moved, none]
    rfl
  have ascendingSum := ascending_append ascending b
  obtain ⟨place, last⟩ := length_mem none
  have whole := (fits _ last).toInt_add
  have nonneg : 0 ≤ b.length.toInt := Int64.le_iff_toInt_le.mp nonneg
  rw [Int64.add_comm]
  have present : ∃ place, (a ++ b).index? (b.length + a.length) = some place := by
    have there : b.index? b.length = some place := ascending'.mem_iff.mp last
    rw [index?_append ascending, Int64.add_sub_cancel, there]
    cases a.index? (b.length + a.length) <;> exact ⟨_, rfl⟩
  obtain ⟨place, present⟩ := present
  refine length_eq (e := (b.length + a.length, place)) ascendingSum
    (ascendingSum.mem_iff.mpr present) ?_
  rintro ⟨key, behind⟩ member
  have found : (a ++ b).index? key = some behind := ascendingSum.mem_iff.mp member
  rw [index?_append ascending, Option.or_eq_some_iff, Option.map_eq_some_iff] at found
  rw [Int64.le_iff_toInt_le, whole]
  rcases found with found | ⟨-, place', found, -⟩
  · have below := Int64.le_iff_toInt_le.mp (le_length ascending (ascending.mem_iff.mpr found))
    dsimp only at below ⊢
    omega
  · have member := ascending'.mem_iff.mpr found
    have below := Int64.le_iff_toInt_le.mp (le_length ascending' member)
    have back := (fits _ member).toInt_add
    rw [Int64.sub_add_cancel] at back
    dsimp only at below back ⊢
    omega

/-! ### Items that stay -/

/-- All items of two joined arrays stay: those of the first one under their keys, those of the second
one beyond them, each as far from the first one's length as it was from zero. -/
structure Keeps (a b : SparseArray α) : Prop where
  count : (a ++ b).keys.length = a.keys.length + b.keys.length
  left {key : Int64} {x : α} : a.get? key = some x → (a ++ b).get? key = some x
  right {key : Int64} {x : α} : b.get? key = some x → ∃ beyond : Int64,
    beyond.toInt = a.length.toInt + key.toInt ∧ (∀ e ∈ a.keys, e.1 < beyond) ∧
      (a ++ b).get? beyond = some x
  length : (a ++ b).length.toInt = a.length.toInt + b.length.toInt

theorem lt_beyond (ascending : Ascending a.keys) {key : Int64} (positive : 1 ≤ key)
    (fits : Fits key a.length) : ∀ e ∈ a.keys, e.1 < key + a.length := by
  intro e member
  have below := Int64.le_iff_toInt_le.mp (le_length ascending member)
  have positive : 1 ≤ key.toInt := Int64.le_iff_toInt_le.mp positive
  rw [Int64.lt_iff_toInt_lt, fits.toInt_add]
  omega

/-- Under a key beyond the first array the sum has what was moved there. -/
theorem get?_append_beyond (indexed : a.Indexed) {key : Int64}
    (beyond : ∀ e ∈ a.keys, e.1 < key + a.length) : (a ++ b).get? (key + a.length) = b.get? key := by
  have absent : a.get? (key + a.length) = none := by
    rw [← Option.not_isSome_iff_eq_none, indexed.isSome_get?, Option.isSome_iff_exists]
    rintro ⟨place, here⟩
    have here := beyond (key + a.length, place) (indexed.ascending.mem_iff.mpr here)
    exact Int64.lt_irrefl here
  rw [indexed.get?_append, absent, Option.none_or, Int64.add_sub_cancel]

/-- Positive keys are moved beyond all others, so they stand behind them in the same order. -/
theorem keys_append_of_positive (ascending : Ascending a.keys) (ascending' : Ascending b.keys)
    (positive : ∀ e ∈ b.keys, 1 ≤ e.1) (fits : ∀ e ∈ b.keys, Fits e.1 a.length) :
    (a ++ b).keys = a.keys ++ moved a b := by
  refine (ascending_append ascending b).ext ?_ (lookup_append ascending b)
  refine List.pairwise_append.mpr ⟨ascending, ?_, ?_⟩
  · refine List.pairwise_map.mpr (List.Pairwise.imp_of_mem ?_ ascending')
    intro e f member member' below
    have below := Int64.lt_iff_toInt_lt.mp below
    rw [Int64.lt_iff_toInt_lt, (fits e member).toInt_add, (fits f member').toInt_add]
    omega
  · intro e member f member'
    obtain ⟨g, there, rfl⟩ := List.mem_map.mp member'
    exact lt_beyond ascending (positive g there) (fits g there) e member

theorem length_nonneg (positive : ∀ e ∈ b.keys, 1 ≤ e.1) : 0 ≤ b.length := by
  by_cases none : b.keys = []
  · rw [length_of_nil none]
    exact Int64.le_rfl
  · obtain ⟨place, last⟩ := length_mem none
    have least := positive (b.length, place) last
    exact Int64.le_trans (by decide) least

/-- Where the second array has positive keys only, all items stay exactly if the lengths add up to an
integer of 64 bits. -/
theorem keeps_iff (indexed : a.Indexed) (indexed' : b.Indexed) (positive : ∀ e ∈ b.keys, 1 ≤ e.1) :
    Keeps a b ↔ a.length.toInt + b.length.toInt ≤ Int64.maxValue.toInt := by
  constructor
  · intro keeps
    rw [← keeps.length]
    exact Int64.toInt_le _
  intro small
  have lower := a.length.minValue_le_toInt
  have nonneg := length_nonneg positive
  have fits : ∀ e ∈ b.keys, Fits e.1 a.length := fun e member => by
    have below := Int64.le_iff_toInt_le.mp (le_length indexed'.ascending member)
    have positive : 1 ≤ e.1.toInt := Int64.le_iff_toInt_le.mp (positive e member)
    constructor <;> omega
  constructor
  case count =>
    rw [keys_append_of_positive indexed.ascending indexed'.ascending positive fits,
      List.length_append, moved, List.length_map]
  case left =>
    intro key x found
    rw [indexed.get?_append, found, Option.some_or]
  case right =>
    intro key x found
    obtain ⟨place, there⟩ : ∃ place, b.index? key = some place := by
      rw [← Option.isSome_iff_exists, ← indexed'.isSome_get?, found]
      rfl
    have member : (key, place) ∈ b.keys := indexed'.ascending.mem_iff.mpr there
    have above := lt_beyond indexed.ascending (positive _ member) (fits _ member)
    refine ⟨key + a.length, ?_, above, ?_⟩
    · rw [(fits _ member).toInt_add, Int.add_comm]
    · rw [get?_append_beyond indexed above, found]
  case length =>
    have nonneg' : 0 ≤ b.length.toInt := Int64.le_iff_toInt_le.mp nonneg
    have whole : Fits a.length b.length := by constructor <;> omega
    rw [length_append indexed.ascending indexed'.ascending nonneg fits, whole.toInt_add]

/-! ### Grouping -/

theorem append_assoc (indexed : a.Indexed) (indexed' : b.Indexed) (nonneg : 0 ≤ b.length)
    (fits : ∀ e ∈ b.keys, Fits e.1 a.length) (c : SparseArray α) :
    a ++ b ++ c = a ++ (b ++ c) := by
  have keys : (a ++ b ++ c).keys = (a ++ (b ++ c)).keys := by
    have left := ascending_append indexed.ascending b
    refine (ascending_append left c).ext (ascending_append indexed.ascending (b ++ c)) fun key => ?_
    change (a ++ b ++ c).index? key = (a ++ (b ++ c)).index? key
    rw [index?_append left, index?_append indexed.ascending, index?_append indexed.ascending,
      index?_append indexed'.ascending, length_append indexed.ascending indexed'.ascending nonneg fits,
      Int64.sub_sub, Option.or_assoc, Option.map_or, items_append, Array.size_append]
    simp only [Option.map_map, Function.comp_def, Nat.add_assoc]
  have items : (a ++ b ++ c).items = (a ++ (b ++ c)).items := by
    simp only [items_append, Array.append_assoc]
  cases joined : a ++ b ++ c
  cases joined' : a ++ (b ++ c)
  rw [joined, joined'] at keys items
  exact congrArg₂ SparseArray.mk keys items

end CellScript.SparseArray
