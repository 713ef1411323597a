import CellScript.Proofs.Associations
import CellScript.SparseArray
import Mathlib.Data.List.Perm.Basic

/-! The index of a sparse array. Its keys ascend, so it is known by what it has under each key, and
that is how adding an item and joining two arrays are described. From there: however an array is
built, its index points to items that are there, and to none of them twice. -/
namespace CellScript.SparseArray

variable {α : Type}

/-! ### Lists of keys -/

/-- Every key is larger than those before it. -/
def Ascending (keys : List (Int64 × Nat)) : Prop := keys.Pairwise fun e f => e.1 < f.1

theorem lookup_insertKey_of_ne {key other : Int64} (apart : other ≠ key) (place : Nat)
    (keys : List (Int64 × Nat)) :
    (insertKey key place keys).lookup other = keys.lookup other := by
  have below (keys : List (Int64 × Nat)) : ((key, place) :: keys).lookup other = keys.lookup other := by
    rw [lookup_cons_eq, if_neg apart]
  induction keys with
  | nil => exact below []
  | cons e rest ih =>
    unfold insertKey
    split
    · exact below (e :: rest)
    split
    · rfl
    · rw [lookup_cons_eq, lookup_cons_eq, ih]

theorem mem_insertKey {key : Int64} {place : Nat} {e : Int64 × Nat} {keys : List (Int64 × Nat)}
    (member : e ∈ insertKey key place keys) : e = (key, place) ∨ e ∈ keys := by
  induction keys with
  | nil => exact .inl (List.mem_singleton.mp member)
  | cons f rest ih =>
    unfold insertKey at member
    split at member
    · exact List.mem_cons.mp member
    split at member
    · exact .inr member
    · rcases List.mem_cons.mp member with rfl | member
      · exact .inr List.mem_cons_self
      · exact (ih member).imp_right (List.mem_cons_of_mem f)

namespace Ascending

variable {key : Int64} {place : Nat} {keys others : List (Int64 × Nat)}

theorem insertKey (ascending : Ascending keys) (key : Int64) (place : Nat) :
    Ascending (insertKey key place keys) := by
  induction keys with
  | nil => exact List.pairwise_singleton _ _
  | cons e rest ih =>
    obtain ⟨first, later⟩ := List.pairwise_cons.mp ascending
    unfold SparseArray.insertKey
    split
    next below =>
      refine List.pairwise_cons.mpr ⟨fun f member => ?_, ascending⟩
      rcases List.mem_cons.mp member with rfl | member
      · exact below
      · exact Int64.lt_trans below (first f member)
    next notBelow =>
      split
      · exact ascending
      next other =>
        refine List.pairwise_cons.mpr ⟨fun f member => ?_, ih later⟩
        rcases mem_insertKey member with rfl | member
        · exact Int64.lt_of_le_of_ne (Int64.not_lt.mp notBelow) (Ne.symm other)
        · exact first f member

theorem nodup (ascending : Ascending keys) : (keys.map (·.1)).Nodup := by
  refine List.pairwise_map.mpr (List.Pairwise.imp (fun {e f} below equal => ?_) ascending)
  rw [equal] at below
  exact Int64.lt_irrefl below

theorem mem_iff (ascending : Ascending keys) : (key, place) ∈ keys ↔ keys.lookup key = some place :=
  (lookup_eq_some_iff_mem ascending.nodup).symm

theorem lookup_insertKey (ascending : Ascending keys) (key : Int64) (place : Nat) (other : Int64) :
    (SparseArray.insertKey key place keys).lookup other =
      (keys.lookup other).or (if other = key then some place else none) := by
  by_cases apart : other = key
  case neg => rw [lookup_insertKey_of_ne apart, if_neg apart, Option.or_none]
  subst apart
  rw [if_pos rfl]
  induction keys with
  | nil => exact List.lookup_cons_self
  | cons e rest ih =>
    obtain ⟨first, later⟩ := List.pairwise_cons.mp ascending
    unfold SparseArray.insertKey
    split
    next below =>
      have absent : (e :: rest).lookup other = none := by
        rw [List.lookup_eq_none_iff]
        intro f member
        rw [bne_iff_ne]
        rintro rfl
        rcases List.mem_cons.mp member with rfl | member
        · exact Int64.lt_irrefl below
        · exact Int64.lt_irrefl (Int64.lt_trans below (first f member))
      rw [absent, Option.none_or, List.lookup_cons_self]
    next =>
      split
      next here => rw [lookup_cons_eq, if_pos here, Option.some_or]
      next elsewhere => rw [lookup_cons_eq, lookup_cons_eq, if_neg elsewhere, if_neg elsewhere, ih later]

/-- Lists of ascending keys that have the same under each key are the same. -/
theorem ext (ascending : Ascending keys) (ascending' : Ascending others)
    (same : ∀ key, keys.lookup key = others.lookup key) : keys = others := by
  have distinct {keys : List (Int64 × Nat)} (ascending : Ascending keys) : keys.Nodup :=
    List.Nodup.of_map _ ascending.nodup
  refine List.Perm.eq_of_pairwise (fun _ _ _ _ below above => absurd above (Int64.lt_asymm below))
    ascending ascending' ?_
  refine (List.perm_ext_iff_of_nodup (distinct ascending) (distinct ascending')).mpr fun e => ?_
  rw [ascending.mem_iff, ascending'.mem_iff, same]

end Ascending

/-! ### What stands under a key -/

variable {a b : SparseArray α}

theorem keys_eq_nil : a.keys = [] ↔ ∀ key, a.index? key = none := by
  unfold index?
  cases a.keys with
  | nil => exact ⟨fun _ _ => rfl, fun _ => rfl⟩
  | cons e rest =>
    refine ⟨nofun, fun none => ?_⟩
    have found := none e.1
    rw [lookup_cons_eq, if_pos rfl] at found
    cases found

theorem index?_add (ascending : Ascending a.keys) (key : Int64) (x : α) (other : Int64) :
    (a.add key x).index? other =
      (a.index? other).or (if other = key then some a.items.size else none) :=
  ascending.lookup_insertKey key a.items.size other

/-- The keys of the second of two joined arrays, with the places behind the items of the first. -/
def moved (a b : SparseArray α) : List (Int64 × Nat) :=
  b.keys.map fun (key, place) => (key + a.length, a.items.size + place)

theorem lookup_moved (a b : SparseArray α) (key : Int64) :
    (moved a b).lookup key = (b.index? (key - a.length)).map (a.items.size + ·) := by
  unfold moved index?
  induction b.keys with
  | nil => rfl
  | cons e rest ih =>
    rw [List.map_cons, lookup_cons_eq, lookup_cons_eq, ih]
    by_cases here : key - a.length = e.1
    · rw [if_pos here, if_pos (Int64.sub_eq_iff_eq_add.mp here), Option.map_some]
    · rw [if_neg here, if_neg (mt Int64.sub_eq_iff_eq_add.mpr here)]

theorem keys_append (a b : SparseArray α) :
    (a ++ b).keys = (moved a b).foldl (fun keys e => insertKey e.1 e.2 keys) a.keys := by
  rw [moved, List.foldl_map]
  rfl

theorem items_append (a b : SparseArray α) : (a ++ b).items = a.items ++ b.items := rfl

theorem ascending_append (ascending : Ascending a.keys) (b : SparseArray α) :
    Ascending (a ++ b).keys := by
  rw [keys_append]
  generalize moved a b = more
  have further {keys : List (Int64 × Nat)} (ascending : Ascending keys) :
      Ascending (more.foldl (fun keys e => insertKey e.1 e.2 keys) keys) := by
    induction more generalizing keys with
    | nil => exact ascending
    | cons e rest ih => exact ih (ascending.insertKey e.1 e.2)
  exact further ascending

/-- Under each key the sum has what the first array has there, or else what was moved there. -/
theorem lookup_append (ascending : Ascending a.keys) (b : SparseArray α) (key : Int64) :
    (a ++ b).keys.lookup key = (a.keys ++ moved a b).lookup key := by
  rw [keys_append]
  generalize moved a b = more
  have further {keys : List (Int64 × Nat)} (ascending : Ascending keys) :
      (more.foldl (fun keys e => insertKey e.1 e.2 keys) keys).lookup key =
        (keys ++ more).lookup key := by
    induction more generalizing keys with
    | nil => rw [List.foldl_nil, List.append_nil]
    | cons e rest ih =>
      rw [List.foldl_cons, ih (ascending.insertKey e.1 e.2), List.lookup_append, List.lookup_append,
        ascending.lookup_insertKey, lookup_cons_eq, Option.or_assoc]
      congr 1
      split <;> simp
  exact further ascending

theorem index?_append (ascending : Ascending a.keys) (b : SparseArray α) (key : Int64) :
    (a ++ b).index? key =
      (a.index? key).or ((b.index? (key - a.length)).map (a.items.size + ·)) := by
  rw [index?, lookup_append ascending, List.lookup_append, lookup_moved]
  rfl

/-! ### Arrays whose index is sound -/

/-- Every key is given one of the first `size` places, and no two keys the same one. -/
structure Places (index : Int64 → Option Nat) (size : Nat) : Prop where
  inside {key : Int64} {place : Nat} : index key = some place → place < size
  apart {key other : Int64} {place : Nat} :
    index key = some place → index other = some place → key = other

/-- Keys without a place may be given places behind. -/
theorem Places.or {index more : Int64 → Option Nat} {size extra : Nat} (old : Places index size)
    (new : Places more extra) :
    Places (fun key => (index key).or ((more key).map (size + ·))) (size + extra) where
  inside {key place} found := by
    rw [Option.or_eq_some_iff, Option.map_eq_some_iff] at found
    rcases found with found | ⟨-, behind, found, rfl⟩
    · exact Nat.lt_add_right extra (old.inside found)
    · exact Nat.add_lt_add_left (new.inside found) size
  apart {key other place} found found' := by
    rw [Option.or_eq_some_iff, Option.map_eq_some_iff] at found found'
    rcases found with found | ⟨-, behind, found, rfl⟩ <;>
      rcases found' with found' | ⟨-, behind', found', same⟩
    · exact old.apart found found'
    · exact absurd (old.inside found) (by omega)
    · exact absurd (old.inside found') (by omega)
    · exact new.apart found (Nat.add_left_cancel same ▸ found')

/-- Keys ascend and have places of their own; there are items exactly where there are keys. -/
structure Indexed (a : SparseArray α) : Prop where
  ascending : Ascending a.keys
  places : Places a.index? a.items.size
  inhabited : a.keys = [] ↔ a.items.size = 0

namespace Indexed

theorem empty : Indexed (SparseArray.empty : SparseArray α) :=
  ⟨List.Pairwise.nil, ⟨nofun, nofun⟩, ⟨fun _ => rfl, fun _ => rfl⟩⟩

theorem add (indexed : a.Indexed) (key : Int64) (x : α) : (a.add key x).Indexed where
  ascending := indexed.ascending.insertKey key a.items.size
  places := by
    have one : Places (fun other => if other = key then some 0 else none) 1 := by
      constructor <;> grind
    have both := indexed.places.or one
    have same : (a.add key x).index? = fun other =>
        (a.index? other).or ((if other = key then some 0 else none).map (a.items.size + ·)) := by
      funext other
      rw [index?_add indexed.ascending]
      split <;> rfl
    rw [same, SparseArray.add, Array.size_push]
    exact both
  inhabited := by
    refine ⟨fun none => ?_, fun none => absurd none ?_⟩
    · have found := keys_eq_nil.mp none key
      rw [index?_add indexed.ascending, if_pos rfl, Option.or_some] at found
      cases found
    · rw [SparseArray.add, Array.size_push]
      exact Nat.succ_ne_zero _

theorem ofList (xs : List α) : (SparseArray.ofList xs).Indexed := by
  have further {a : SparseArray α} (indexed : a.Indexed) :
      (xs.foldl (fun a x => a.add (Int64.ofNat (a.items.size + 1)) x) a).Indexed := by
    induction xs generalizing a with
    | nil => exact indexed
    | cons x xs ih => exact ih (indexed.add _ x)
  exact further .empty

theorem append (indexed : a.Indexed) (indexed' : b.Indexed) : (a ++ b).Indexed where
  ascending := ascending_append indexed.ascending b
  places := by
    have later : Places (fun key => b.index? (key - a.length)) b.items.size :=
      ⟨indexed'.places.inside, fun found found' =>
        (Int64.sub_left_inj a.length).mp (indexed'.places.apart found found')⟩
    have same : (a ++ b).index? = fun key =>
        (a.index? key).or ((b.index? (key - a.length)).map (a.items.size + ·)) :=
      funext fun key => index?_append indexed.ascending b key
    rw [same, items_append, Array.size_append]
    exact indexed.places.or later
  inhabited := by
    rw [items_append, Array.size_append, Nat.add_eq_zero_iff, ← indexed.inhabited,
      ← indexed'.inhabited, keys_eq_nil, keys_eq_nil, keys_eq_nil]
    simp only [index?_append indexed.ascending, Option.or_eq_none_iff, Option.map_eq_none_iff]
    constructor
    · refine fun none => ⟨fun key => (none key).1, fun key => ?_⟩
      rw [← Int64.add_sub_cancel key a.length]
      exact (none (key + a.length)).2
    · exact fun none key => ⟨none.1 key, none.2 _⟩

/-- A key of the index leads to an item. -/
theorem item (indexed : a.Indexed) {key : Int64} {place : Nat} (found : a.index? key = some place) :
    ∃ x, a.items[place]? = some x ∧ a.get? key = some x := by
  have inside := indexed.places.inside found
  refine ⟨a.items[place], Array.getElem?_eq_getElem inside, ?_⟩
  rw [get?, found, Option.bind_some, Array.getElem?_eq_getElem inside]

theorem isSome_get? (indexed : a.Indexed) (key : Int64) :
    (a.get? key).isSome = (a.index? key).isSome := by
  cases found : a.index? key with
  | none =>
    rw [get?, found, Option.bind_none]
    rfl
  | some place =>
    obtain ⟨x, -, here⟩ := indexed.item found
    rw [here, Option.isSome_some, Option.isSome_some]

/-- A new item stands under its key. -/
theorem get?_add_self (indexed : a.Indexed) {key : Int64} (absent : a.get? key = none) (x : α) :
    (a.add key x).get? key = some x := by
  have none : a.index? key = none := by
    rw [← Option.not_isSome_iff_eq_none, ← indexed.isSome_get?, absent]
    exact Bool.false_ne_true
  rw [get?, index?_add indexed.ascending, none, if_pos rfl, Option.none_or, Option.bind_some]
  exact Array.getElem?_push_size

/-- No key is left out where the entries are listed. -/
theorem keys_entries (indexed : a.Indexed) : a.entries.map (·.1) = a.keys.map (·.1) := by
  have there : ∀ e ∈ a.keys, ∃ x, a.items[e.2]? = some x := fun e member => by
    obtain ⟨x, here, -⟩ := indexed.item (indexed.ascending.mem_iff.mp member)
    exact ⟨x, here⟩
  unfold entries
  generalize a.keys = keys at there
  induction keys with
  | nil => rfl
  | cons e rest ih =>
    obtain ⟨key, place⟩ := e
    obtain ⟨x, here⟩ := there (key, place) List.mem_cons_self
    dsimp only at here
    rw [List.filterMap_cons]
    simp only [here, Option.map_some, List.map_cons]
    exact congrArg (key :: ·) (ih fun f member => there f (List.mem_cons_of_mem _ member))

theorem get?_append (indexed : a.Indexed) (b : SparseArray α) (key : Int64) :
    (a ++ b).get? key = (a.get? key).or (b.get? (key - a.length)) := by
  have through : (a ++ b).get? key = ((a ++ b).index? key).bind ((a.items ++ b.items)[·]?) := rfl
  rw [through, index?_append indexed.ascending]
  cases found : a.index? key with
  | some place =>
    obtain ⟨x, item, here⟩ := indexed.item found
    rw [here, Option.some_or, Option.some_or, Option.bind_some,
      Array.getElem?_append_left (indexed.places.inside found), item]
  | none =>
    have absent : a.get? key = none := by rw [get?, found, Option.bind_none]
    rw [absent, Option.none_or, Option.none_or, get?]
    cases b.index? (key - a.length) with
    | none => rfl
    | some place =>
      rw [Option.map_some, Option.bind_some, Option.bind_some,
        Array.getElem?_append_right (Nat.le_add_right _ _), Nat.add_sub_cancel_left]

end Indexed

end CellScript.SparseArray
