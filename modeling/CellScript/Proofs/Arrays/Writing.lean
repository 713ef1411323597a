import CellScript.Optimize.Fold
import CellScript.Proofs.Arrays
import CellScript.Proofs.Ownership
import CellScript.Proofs.Plan.Closed

/-! Writing an item of an array. The array is taken from the cell of a variable before its subscript is
evaluated, and the code in the subscript may give the cell another array. Where such a write goes, and
when it is seen through the variable afterwards, is said here of every state in which an assignment can
start, be it inside of calls and loops. -/
namespace CellScript

open Run

/-! ### Items in the heap -/

namespace Heap

variable {h : Heap} {a : ArrayRef} {c d : CellRef} {k : Int64} {v : Value}

/-- A value is written to the item under a key, from a fresh cell. -/
def writeItem (h : Heap) (a : ArrayRef) (key : Int64) (v : Value) : Heap :=
  ((h.slot a key).2.newCell v).2.put (h.slot a key).1 v

/-- A value without parts is written as it is. -/
theorem set_newCell_self (h : Heap) (c : CellRef) (scalar : v.isScalar = true) :
    (h.newCell v).2.set c ((h.newCell v).2.get (h.newCell v).1) = (h.newCell v).2.put c v := by
  rw [get_newCell_self]
  cases v with
  | array | tuple => cases scalar
  | _ => rfl

/-- The array is there and so are its items. -/
structure Complete (h : Heap) (a : ArrayRef) : Prop where
  inside : a.index < h.arrays.size
  indexed : (h.array a).Indexed
  items : ∀ {key c}, (h.array a).get? key = some c → c.index < h.cells.size

theorem size_le_newCell (h : Heap) (v : Value) : h.cells.size ≤ (h.newCell v).2.cells.size := by
  change h.cells.size ≤ (h.cells.push v).size
  rw [Array.size_push]
  exact Nat.le_succ _

theorem size_le_slot (h : Heap) (a : ArrayRef) (key : Int64) :
    h.cells.size ≤ (h.slot a key).2.cells.size := by
  unfold slot
  split
  · exact Nat.le_refl _
  · exact h.size_le_newCell .empty

theorem size_le_writeItem (h : Heap) (a : ArrayRef) (key : Int64) (v : Value) :
    (h.slot a key).2.cells.size ≤ (h.writeItem a key v).cells.size := by
  change _ ≤ (((h.slot a key).2.newCell v).2.cells.setIfInBounds _ v).size
  rw [Array.size_setIfInBounds]
  exact size_le_newCell _ v

theorem slot_of_get? (found : (h.array a).get? k = some c) : h.slot a k = (c, h) := by
  unfold slot
  rw [found]

/-- The cell that is asked for is the one that is there, or a fresh one. -/
theorem slot_eq_iff (old : c.index < h.cells.size) :
    (h.slot a k).1 = c ↔ (h.array a).get? k = some c := by
  unfold slot
  cases (h.array a).get? k with
  | some d => exact Option.some_inj.symm
  | none =>
    refine iff_of_false ?_ nofun
    rintro rfl
    exact Nat.lt_irrefl _ old

namespace Complete

variable (complete : h.Complete a)

include complete

theorem get?_slot (key : Int64) : ((h.slot a key).2.array a).get? key = some (h.slot a key).1 := by
  unfold slot
  cases found : (h.array a).get? key with
  | some c => exact found
  | none =>
    have absent := found
    simp only [Heap.array, Heap.newCell, Array.getElem?_modify, if_true,
      Array.getElem?_eq_getElem complete.inside] at absent ⊢
    have indexed := complete.indexed
    simp only [Heap.array, Array.getElem?_eq_getElem complete.inside] at indexed
    exact indexed.get?_add_self absent _

theorem slot_lt (key : Int64) : (h.slot a key).1.index < (h.slot a key).2.cells.size := by
  unfold slot
  cases found : (h.array a).get? key with
  | some c => exact complete.items found
  | none =>
    change h.cells.size < (h.cells.push .empty).size
    rw [Array.size_push]
    exact Nat.lt_succ_self _

/-- Only the item has another value than before. -/
theorem get_writeItem (old : c.index < (h.slot a k).2.cells.size) :
    (h.writeItem a k v).get c = if c = (h.slot a k).1 then v else h.get c := by
  have inside : (h.slot a k).1.index < ((h.slot a k).2.newCell v).2.cells.size :=
    Nat.lt_of_lt_of_le (complete.slot_lt k) (size_le_newCell _ v)
  rw [writeItem, get_put _ _ _ _ inside, get_newCell_of_lt old, get_slot]

/-- A cell with an array leads to the item that was written if it did so before, or if its array is the
one in which the item was written. The item itself has no array any more. -/
theorem leads_to_item_iff (old : c.index < h.cells.size) (scalar : v.isScalar = true) :
    (∃ b, (h.writeItem a k v).get c = .array b ∧
        ((h.writeItem a k v).array b).get? k = some (h.slot a k).1) ↔
      (h.slot a k).1 ≠ c ∧
        ∃ b, h.get c = .array b ∧ (b = a ∨ (h.array b).get? k = some (h.slot a k).1) := by
  rw [complete.get_writeItem (Nat.lt_of_lt_of_le old (h.size_le_slot a k))]
  by_cases written : c = (h.slot a k).1
  · rw [if_pos written]
    refine iff_of_false ?_ fun other => other.1 written.symm
    rintro ⟨b, rfl, -⟩
    cases scalar
  · rw [if_neg written]
    have under (b : ArrayRef) : ((h.writeItem a k v).array b).get? k = some (h.slot a k).1 ↔
        b = a ∨ (h.array b).get? k = some (h.slot a k).1 := by
      change ((h.slot a k).2.array b).get? k = _ ↔ _
      by_cases here : b = a
      · subst here
        exact iff_of_true (complete.get?_slot k) (.inl rfl)
      · rw [array_slot_of_ne here, or_iff_right here]
    simp only [under, ne_eq, Ne.symm written, not_false_eq_true, true_and]

end Complete

/-- Nothing takes arrays away. -/
theorem Lasting.arrays_size (n : Nat) : Lasting fun h => n ≤ h.arrays.size := by
  have made {h : Heap} {result : Value × Heap} (enough : n ≤ h.arrays.size)
      (fresh : Operators.Fresh h result) : n ≤ result.2.arrays.size := by
    cases fresh with
    | plain | tuple => exact enough
    | array | sum => exact Nat.le_trans enough (by simp [Heap.newArray])
  have set {h : Heap} (enough : n ≤ h.arrays.size) (c : CellRef) (v : Value) :
      n ≤ (h.set c v).arrays.size := by
    cases v with
    | array => exact Nat.le_trans enough (by simp [Heap.set, Heap.copy, Heap.newArray, Heap.put])
    | _ => exact enough
  constructor
  case made => exact made
  case held => exact fun enough fresh => made enough fresh
  case written => exact fun c enough fresh => set (made enough fresh) c _
  case assigned => exact fun c d enough => set enough c _
  case slot =>
    intro h a key enough
    rw [arrays_size_slot]
    exact enough

end Heap

/-! ### States -/

/-- The states that can come about before, while and after a machine runs programs. -/
inductive Machine.Arises (cfg : Settings) : Machine → Prop where
  | after {past : List Deed} {m : Machine} (chronicle : Chronicle cfg past m) : Arises cfg m
  | during {past : List Deed} {m : Machine} {d : Deed} (chronicle : Chronicle cfg past m)
    (member : d ∈ past) : Arises cfg d.machine

namespace Machine.Arises

variable {cfg : Settings} {m m₁ : Machine}

theorem closed (arises : m.Arises cfg) : m.Closed := by
  cases arises with
  | after chronicle => exact chronicle.closed.2
  | during chronicle member => exact chronicle.closed.1 _ member

theorem stocked (arises : m.Arises cfg) : m.heap.Stocked := by
  cases arises with
  | after chronicle => exact chronicle.stocked.2
  | during chronicle member => exact chronicle.stocked.1 _ member

theorem heap (arises : m.Arises cfg) : m.heap.Arises := by
  cases arises with
  | after chronicle => exact .machine chronicle
  | during chronicle member => exact .deed chronicle member

/-- While an expression is evaluated, the cell of a variable and the array in it stay, and nothing that
is under a key of the array is missing. -/
theorem complete (arises : m.Arises cfg) {n : Nat} {e : Expr} {key : CellRef}
    (evaluated : Eval.expr cfg n e m = .ok key m₁) {x : Text} {c : CellRef} {a : ArrayRef}
    (bound : m.scopes.lookup? x = some c) (held : m.heap.get c = .array a) :
    c.index < m₁.heap.cells.size ∧ m₁.heap.Complete a := by
  have known := arises.heap.owned.known c
  rw [held] at known
  have stocked : m₁.heap.Stocked :=
    Heap.Stocked.lasting.expr (fun f stocked => stocked.newCell (.func f)) arises.stocked evaluated
  obtain ⟨R, within⟩ := arises.closed
  obtain ⟨-, S, more, ended⟩ := (Plan.guarded cfg n).expr R e R le_rfl m within
  rw [(performed cfg n).expr, evaluated] at ended
  have there : R.pairs c c := by
    have alike := within.scopes.lookup? x
    rw [bound] at alike
    cases alike with
    | some paired => exact paired
  have heaps : Heap.Alike _ S m₁.heap m₁.heap := ended.within.heap
  refine ⟨heaps.left_bound (more _ _ there), ?_, stocked.indexed.arrays a, fun {key d} found => ?_⟩
  · exact (Heap.Lasting.arrays_size (a.index + 1)).expr (fun _ enough => enough) known evaluated
  · have alike := (heaps.arrays a).get? key
    rw [found] at alike
    cases alike with
    | some paired => exact heaps.left_bound paired

end Machine.Arises

/-! ### Evaluation -/

namespace Eval

open Optimize (plainLiteral? scalarValue?)

variable {cfg : Settings} {m m₁ m' : Machine} {x : Text} {e : Expr} {c : CellRef} {n : Nat}

theorem itemUnder_eq_ok {span keySpan : Span} {key : CellRef} {v : Value} :
    itemUnder span keySpan key v m = .ok c m' ↔ ∃ a k, v = .array a ∧ m.heap.get key = .int k ∧
      c = (m.heap.slot a k).1 ∧ m' = { m with heap := (m.heap.slot a k).2 } := by
  constructor
  · intro ended
    cases v with
    | array a =>
      rw [itemUnder_array] at ended
      cases held : m.heap.get key with
      | int k =>
        rw [held] at ended
        cases ended
        exact ⟨a, k, rfl, rfl, rfl, rfl⟩
      | _ =>
        rw [held] at ended
        cases ended
    | _ => cases ended
  · rintro ⟨a, k, rfl, held, rfl, rfl⟩
    rw [itemUnder_array, held]
    rfl

theorem lookup_eq {span : Span} (bound : m.scopes.lookup? x = some c) : Run.lookup span x m = .ok c m := by
  change locate span (m.scopes.lookup x) m = _
  rw [Scopes.lookup, bound]
  rfl

theorem lookup_ok {span : Span} (ended : Run.lookup span x m = .ok c m') :
    m.scopes.lookup? x = some c ∧ m' = m := by
  cases bound : m.scopes.lookup? x with
  | some d =>
    rw [lookup_eq bound] at ended
    cases ended
    exact ⟨rfl, rfl⟩
  | none =>
    change locate span (m.scopes.lookup x) m = _ at ended
    rw [Scopes.lookup, bound] at ended
    cases ended

/-- The value of the variable is taken before the subscript is evaluated. -/
theorem primary_item (bound : m.scopes.lookup? x = some c) (s t : Span) (e : Expr) :
    primary cfg (n + 2) (.ref s x [.subscript t e]) m =
      (expr cfg n e >>= fun key => itemUnder t e.span key (m.heap.get c)) m := by
  simp only [primary, List.foldlM_cons, List.foldlM_nil, bind_pure]
  change EStateM.bind (Run.lookup s x) (fun c => tail cfg (n + 1) c (.subscript t e)) m = _
  unfold EStateM.bind
  rw [lookup_eq bound]
  rfl

theorem primary_item_ok {s t : Span} {item : CellRef}
    (ended : primary cfg n (.ref s x [.subscript t e]) m = .ok item m') :
    ∃ c a k n' key m₁, m.scopes.lookup? x = some c ∧ m.heap.get c = .array a ∧
      expr cfg n' e m = .ok key m₁ ∧ m₁.heap.get key = .int k ∧ item = (m₁.heap.slot a k).1 ∧
      m' = { m₁ with heap := (m₁.heap.slot a k).2 } := by
  match n with
  | 0 => cases ended
  | 1 =>
    simp only [primary] at ended
    obtain ⟨c, m₀, -, rest⟩ := run_bind_ok ended
    cases rest
  | n + 2 =>
    have found : ∃ c, m.scopes.lookup? x = some c := by
      simp only [primary] at ended
      obtain ⟨c, m₀, found, -⟩ := run_bind_ok ended
      exact ⟨c, (lookup_ok found).1⟩
    obtain ⟨c, bound⟩ := found
    rw [primary_item bound] at ended
    obtain ⟨key, m₁, evaluated, under⟩ := run_bind_ok ended
    obtain ⟨a, k, held, integer, rfl, rfl⟩ := itemUnder_eq_ok.mp under
    exact ⟨c, a, k, n, key, m₁, bound, held, evaluated, integer, rfl, rfl⟩

theorem expr_lone (s t : Span) (p : Primary) :
    expr cfg (n + 2) (.mk s [.mk t none p none] []) = primary cfg n p := by
  simp only [expr, operand]
  exact bind_pure _

theorem scalarValue?_scalar {l : Literal} {v : Value} (scalar : scalarValue? l = some v) :
    v.isScalar = true := by
  cases l with
  | integer | real | boolean | string | empty =>
    cases scalar
    rfl
  | missing | array | tuple | function | lambda => cases scalar

/-- A literal without parts gets a fresh cell. -/
theorem expr_literal {l : Literal} {v : Value} (plain : plainLiteral? e = some l)
    (scalar : scalarValue? l = some v) : expr cfg (n + 4) e = newCell v := by
  unfold plainLiteral? at plain
  split at plain
  next =>
    cases plain
    rw [expr_lone, primary]
    cases l with
    | integer | real | boolean | string | empty =>
      cases scalar
      rfl
    | missing | array | tuple | function | lambda => cases scalar
  next => cases plain

/-- The same under any bound that is large enough for a value. -/
theorem expr_literal_ok {l : Literal} {v : Value} (plain : plainLiteral? e = some l)
    (scalar : scalarValue? l = some v) (ended : expr cfg n e m = .ok c m') : newCell v m = .ok c m' := by
  have enough : expr cfg (n + 4) e = newCell v := expr_literal plain scalar
  obtain same | ⟨m'', out⟩ := Refines.of_le (fun n => (deepens cfg n).expr e) (Nat.le_add_right n 4) m
  · rw [← enough, ← same, ended]
  · rw [ended] at out
    cases out

/-- An assignment of a literal to an item evaluates the subscript, writes the item and does nothing else. -/
theorem assign_item_ok {span s t : Span} {value : Expr} {l : Literal} {v : Value}
    (plain : plainLiteral? value = some l) (scalar : scalarValue? l = some v)
    (ended : statement cfg n (.assign span (.ref s x [.subscript t e]) (some (.known .set)) value) m =
      .ok () m') :
    ∃ c a k n' key m₁, m.scopes.lookup? x = some c ∧ m.heap.get c = .array a ∧
      expr cfg n' e m = .ok key m₁ ∧ m₁.heap.get key = .int k ∧
      m' = { m₁ with heap := m₁.heap.writeItem a k v } := by
  cases n with
  | zero => cases ended
  | succ n =>
    simp only [statement] at ended
    obtain ⟨item, m₂, target, rest⟩ := run_bind_ok ended
    obtain ⟨c, a, k, n', key, m₁, bound, held, evaluated, integer, rfl, rfl⟩ := primary_item_ok target
    have present : value.isMissing = false := by
      cases value with
      | missing => cases plain
      | mk => rfl
    rw [present] at rest
    obtain ⟨d, m₃, source, rest⟩ := run_bind_ok rest
    have made := expr_literal_ok plain scalar source
    cases made
    cases rest
    refine ⟨c, a, k, n', key, m₁, bound, held, evaluated, integer, ?_⟩
    exact congrArg (fun h : Heap => { m₁ with heap := h })
      (Heap.set_newCell_self _ _ (scalarValue?_scalar scalar))

end Eval

/-- The expression asks for the item of a variable under a key. -/
inductive Expr.AsksFor (x : Text) (k : Int64) : Expr → Prop where
  | mk {subscript : Expr} {place : Span} (span operand name tail : Span)
    (plain : Optimize.plainLiteral? subscript = some (.integer place k)) :
    AsksFor x k (.mk span [.mk operand none (.ref name x [.subscript tail subscript]) none] [])

/-- The item is found where the array has one under the key. -/
theorem Eval.expr_item_eq_ok {cfg : Settings} {m m' : Machine} {x : Text} {k : Int64} {e : Expr}
    {c item : CellRef} (asks : e.AsksFor x k) (bound : m.scopes.lookup? x = some c)
    (old : item.index < m.heap.cells.size) (fuel : Nat) :
    expr cfg (fuel + 8) e m = .ok item m' ↔ ∃ b, m.heap.get c = .array b ∧
      (m.heap.array b).get? k = some item ∧ m' = { m with heap := (m.heap.newCell (.int k)).2 } := by
  cases asks with
  | @mk subscript place span operand name tail plain =>
    have under : expr cfg (fuel + 8)
        (.mk span [.mk operand none (.ref name x [.subscript tail subscript]) none] []) m =
        itemUnder tail subscript.span (m.heap.newCell (.int k)).1 (m.heap.get c)
          { m with heap := (m.heap.newCell (.int k)).2 } := by
      rw [expr_lone, primary_item bound, expr_literal plain rfl]
      rfl
    rw [under, itemUnder_eq_ok]
    constructor
    · rintro ⟨b, k', held, integer, same, rfl⟩
      rw [Heap.get_newCell_self] at integer
      cases integer
      have grown : item.index < (m.heap.newCell (.int k)).2.cells.size :=
        Nat.lt_of_lt_of_le old (m.heap.size_le_newCell _)
      have found := (Heap.slot_eq_iff grown).mp same.symm
      refine ⟨b, held, found, ?_⟩
      rw [Heap.slot_of_get? found]
    · rintro ⟨b, held, found, rfl⟩
      refine ⟨b, k, held, Heap.get_newCell_self _ _, ?_⟩
      rw [Heap.slot_of_get? (h := (m.heap.newCell (.int k)).2) found]
      exact ⟨rfl, rfl⟩

/-- An assignment `x[e] := v` of a literal `v`, where `e` came to be the integer `k`, writes the item
under `k` of the array that `x` had before `e` was evaluated. Asked for afterwards, `x[k]` is this
item exactly if the evaluation of `e` left `x` with that array or with one that has the same item
under `k`, and the item is not the cell of `x` itself. -/
theorem item_writes_arrive {cfg : Settings} {m m₁ m' : Machine} {x : Text} {e value : Expr}
    {l : Literal} {v : Value} {key : CellRef} {k : Int64} {n n' : Nat} {span name tail : Span}
    (arises : m.Arises cfg) (plain : Optimize.plainLiteral? value = some l)
    (scalar : Optimize.scalarValue? l = some v) (evaluated : Eval.expr cfg n e m = .ok key m₁)
    (integer : m₁.heap.get key = .int k)
    (ended : Eval.statement cfg n'
      (.assign span (.ref name x [.subscript tail e]) (some (.known .set)) value) m = .ok () m') :
    ∃ c a item, m.scopes.lookup? x = some c ∧ m.heap.get c = .array a ∧
      (m'.heap.array a).get? k = some item ∧ m'.heap.get item = v ∧
      ∀ {e' : Expr}, e'.AsksFor x k → ∀ fuel,
        ((∃ m'', Eval.expr cfg (fuel + 8) e' m' = .ok item m'' ∧ m''.heap.get item = v) ↔
          item ≠ c ∧ ∃ b, m₁.heap.get c = .array b ∧
            (b = a ∨ (m₁.heap.array b).get? k = some item)) := by
  obtain ⟨c, a, k', n'', key', m₂, bound, held, evaluated', integer', rfl⟩ :=
    Eval.assign_item_ok plain scalar ended
  obtain ⟨rfl, rfl⟩ := Refines.unique (fun n => (Eval.deepens cfg n).expr e) evaluated evaluated'
  rw [integer] at integer'
  cases integer'
  obtain ⟨inside, complete⟩ := arises.complete evaluated bound held
  have scopes := (Eval.expr_keeps cfg n e m).1
  rw [evaluated] at scopes
  have bound' : { m₁ with heap := m₁.heap.writeItem a k v }.scopes.lookup? x = some c := scopes ▸ bound
  have there := complete.slot_lt k
  have written : (m₁.heap.writeItem a k v).get (m₁.heap.slot a k).1 = v := by
    rw [complete.get_writeItem there, if_pos rfl]
  refine ⟨c, a, (m₁.heap.slot a k).1, bound, held, complete.get?_slot k, written, fun asks fuel => ?_⟩
  have old := Nat.lt_of_lt_of_le there (m₁.heap.size_le_writeItem a k v)
  rw [← complete.leads_to_item_iff inside (Eval.scalarValue?_scalar scalar)]
  constructor
  · rintro ⟨m'', asked, -⟩
    obtain ⟨b, held', found, -⟩ := (Eval.expr_item_eq_ok asks bound' old fuel).mp asked
    exact ⟨b, held', found⟩
  · rintro ⟨b, held', found⟩
    refine ⟨_, (Eval.expr_item_eq_ok asks bound' old fuel).mpr ⟨b, held', found, rfl⟩, ?_⟩
    exact (Heap.get_newCell_of_lt old (.int k)).trans written

namespace Example

/-- Declares an array `x` of the number one and a function without parameters that does something to `x`
and gives one. -/
def helped (op : AssignOp) : Program :=
  ⟨.zero, .mk .zero [
    .declare .zero [120] (lone (.literal .zero (.array .zero [number 1]))),
    .declare .zero [102] (lone (.literal .zero (.function .zero [] (.mk .zero [
      .assign .zero (.ref .zero [120] []) (some (.known op))
        (lone (.literal .zero (.array .zero [number 7]))),
      .ret .zero (number 1)] false))))] false⟩

def readied (op : AssignOp) : Machine := (Eval.program ⟨.right, 8⟩ 60 (helped op) .initial).2

/-- Calls the function. -/
def helping : Expr := lone (.ref .zero [102] [.call .zero []])

/-- Writes the number five, and calls the function in the subscript. -/
def writing : Statement :=
  .assign .zero (.ref .zero [120] [.subscript .zero helping]) (some (.known .set)) (number 5)

def asking : Expr := lone (.ref .zero [120] [.subscript .zero (number 1)])

def helpedOut (op : AssignOp) : Machine := reached (Eval.expr ⟨.right, 8⟩ 60 helping (readied op))

def overwritten (op : AssignOp) : Machine := reached (Eval.statement ⟨.right, 8⟩ 60 writing (readied op))

theorem readied_arises (op : AssignOp) : (readied op).Arises ⟨.right, 8⟩ :=
  .after (Chronicle.initial.program 60 (helped op))

theorem asking_first : asking.AsksFor [120] 1 := .mk _ _ _ _ rfl

def result? {α : Type} : EStateM.Result Stop Machine α → Option α
  | .ok a _ => some a
  | .error _ _ => none

theorem ok_of_result? {α : Type} {r : EStateM.Result Stop Machine α} {a : α} (ended : result? r = some a) :
    r = .ok a (reached r) := by
  cases r with
  | ok b m =>
    cases ended
    rfl
  | error stop m => cases ended

def int? : Value → Option Int64
  | .int k => some k
  | _ => none

theorem int_of_int? {v : Value} {k : Int64} (same : int? v = some k) : v = .int k := by
  cases v <;> cases same
  rfl

def array? : Value → Option ArrayRef
  | .array a => some a
  | _ => none

theorem array_of_array? {v : Value} {a : ArrayRef} (same : array? v = some a) : v = .array a := by
  cases v <;> cases same
  rfl

end Example

open Example in
/-- The function adds an item to the array, so the array that the variable has afterwards is another one,
with the same item under the key. The write is seen. -/
theorem item_writes_arrive_extended :
    (readied .add).Arises ⟨.right, 8⟩ ∧
      Eval.expr ⟨.right, 8⟩ 60 helping (readied .add) = .ok ⟨5⟩ (helpedOut .add) ∧
      (helpedOut .add).heap.get ⟨5⟩ = .int 1 ∧
      Eval.statement ⟨.right, 8⟩ 60 writing (readied .add) = .ok () (overwritten .add) ∧
      ∃ m, Eval.expr ⟨.right, 8⟩ 60 asking (overwritten .add) = .ok ⟨0⟩ m ∧ m.heap.get ⟨0⟩ = .int 5 := by
  have evaluated : Eval.expr ⟨.right, 8⟩ 60 helping (readied .add) = .ok ⟨5⟩ (helpedOut .add) :=
    ok_of_result? (by decide +kernel)
  have integer : (helpedOut .add).heap.get ⟨5⟩ = .int 1 := int_of_int? (by decide +kernel)
  have ended : Eval.statement ⟨.right, 8⟩ 60 writing (readied .add) = .ok () (overwritten .add) :=
    ok_of_result? (by decide +kernel)
  obtain ⟨c, a, item, bound, held, there, -, asks⟩ :=
    item_writes_arrive (readied_arises .add) rfl rfl evaluated integer ended
  have name : (readied .add).scopes.lookup? [120] = some ⟨1⟩ := by decide +kernel
  cases name.symm.trans bound
  have array : (readied .add).heap.get ⟨1⟩ = .array ⟨0⟩ := array_of_array? (by decide +kernel)
  cases array.symm.trans held
  have first : ((overwritten .add).heap.array ⟨0⟩).get? 1 = some ⟨0⟩ := by decide +kernel
  cases first.symm.trans there
  have another : (helpedOut .add).heap.get ⟨1⟩ = .array ⟨3⟩ := array_of_array? (by decide +kernel)
  have shared : ((helpedOut .add).heap.array ⟨3⟩).get? 1 = some ⟨0⟩ := by decide +kernel
  have found := (asks asking_first 52).mpr ⟨by decide, ⟨3⟩, another, .inr shared⟩
  exact ⟨readied_arises .add, evaluated, integer, ended, found⟩

open Example in
/-- The function gives the variable an array with an item of its own under the key. The write goes to the
item of the former array and is not seen. -/
theorem item_write_lost :
    (readied .set).Arises ⟨.right, 8⟩ ∧ asking.AsksFor [120] 1 ∧
      Eval.expr ⟨.right, 8⟩ 60 helping (readied .set) = .ok ⟨5⟩ (helpedOut .set) ∧
      (helpedOut .set).heap.get ⟨5⟩ = .int 1 ∧
      Eval.statement ⟨.right, 8⟩ 60 writing (readied .set) = .ok () (overwritten .set) ∧
      ∃ m, Eval.expr ⟨.right, 8⟩ 60 asking (overwritten .set) = .ok ⟨3⟩ m ∧ m.heap.get ⟨3⟩ = .int 7 := by
  refine ⟨readied_arises .set, asking_first, ok_of_result? ?_, int_of_int? ?_, ok_of_result? ?_, _,
    ok_of_result? ?_, int_of_int? ?_⟩
  all_goals decide +kernel

end CellScript
