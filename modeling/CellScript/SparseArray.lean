/-! Sparse arrays. Items stand in the order in which they came; an index in ascending key order
tells where the item of each key stands. -/
namespace CellScript

structure SparseArray (α : Type) where
  keys : List (Int64 × Nat)
  items : Array α
deriving Repr

namespace SparseArray

variable {α : Type}

def empty : SparseArray α := ⟨[], #[]⟩

/-- The place of a key's item. -/
def index? (a : SparseArray α) (key : Int64) : Option Nat := a.keys.lookup key

def get? (a : SparseArray α) (key : Int64) : Option α := (a.index? key).bind (a.items[·]?)

def first? (a : SparseArray α) : Option Int64 := a.keys.head?.map (·.1)

/-- The largest key, which is the length of the array; zero if there is no key. -/
def length (a : SparseArray α) : Int64 := ((a.keys.getLast?).map (·.1)).getD 0

/-- Keys with their items, in ascending key order. -/
def entries (a : SparseArray α) : List (Int64 × α) :=
  a.keys.filterMap fun (k, i) => (a.items[i]?).map (k, ·)

/-- Adds a key at its place in the order. A key that is already there keeps its entry. -/
def insertKey (key : Int64) (place : Nat) : List (Int64 × Nat) → List (Int64 × Nat)
  | [] => [(key, place)]
  | e :: rest =>
    if key < e.1 then (key, place) :: e :: rest
    else if key = e.1 then e :: rest
    else e :: insertKey key place rest

def add (a : SparseArray α) (key : Int64) (x : α) : SparseArray α :=
  ⟨insertKey key a.items.size a.keys, a.items.push x⟩

/-- The items under the keys `1, 2, …` in order. -/
def ofList (xs : List α) : SparseArray α :=
  xs.foldl (fun a x => a.add (Int64.ofNat (a.items.size + 1)) x) empty

/-- The items of `b` after those of `a`, its keys moved up by the length of `a`. Where a moved key
meets a key of `a`, the entry of `a` stays. -/
def append (a b : SparseArray α) : SparseArray α :=
  ⟨b.keys.foldl (fun keys (k, i) => insertKey (k + a.length) (a.items.size + i) keys) a.keys,
    a.items ++ b.items⟩

instance : Append (SparseArray α) := ⟨append⟩

/-- What stands under each key from the smaller of `1` and the first key up to the last one. -/
def window (a : SparseArray α) : List (Option α) :=
  match a.first? with
  | none => []
  | some key =>
    let start := if key < 1 then key else 1
    (List.range (a.length.toInt - start.toInt + 1).toNat).map fun i => a.get? (start + Int64.ofNat i)

end SparseArray

end CellScript
