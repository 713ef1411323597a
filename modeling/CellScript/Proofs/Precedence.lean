import CellScript.Operators

/-! Precedence. Operands joined by operators have one tree in which an operator of higher precedence
binds tighter and equal ones group to one side. Reducing them is evaluating that tree, and two stacks,
one of values and one of operators, are enough for it and never run short. -/
namespace CellScript.Operators

/-- Operands joined two at a time. -/
inductive Grouping where
  | operand (v : Value)
  | apply (left : Grouping) (op : BinaryOp) (right : Grouping)

namespace Grouping

def first : Grouping → Value
  | operand v => v
  | apply left _ _ => left.first

/-- The operators in order, each with the operand to its right. -/
def rest : Grouping → List (BinaryOp × Value)
  | operand _ => []
  | apply left op right => left.rest ++ (op, right.first) :: right.rest

def operators (t : Grouping) : List BinaryOp := t.rest.map (·.1)

/-- The left operand, then the right one, then the operator. The first fault is the result. -/
def eval : Grouping → Heap → Except Fault (Value × Heap)
  | operand v, h => .ok (v, h)
  | apply left op right, h => do
    let (l, h) ← left.eval h
    let (r, h) ← right.eval h
    binary op l r h

end Grouping

/-- The second operator may stand in the left operand of the first one: it binds tighter, or just as
tight if equal operators group to the left. -/
def FitsLeft (assoc : Associativity) (op inner : BinaryOp) : Prop :=
  precedence op < precedence inner ∨ assoc = .left ∧ precedence op = precedence inner

/-- The second operator may stand in the right operand of the first one. -/
def FitsRight (assoc : Associativity) (op inner : BinaryOp) : Prop :=
  precedence op < precedence inner ∨ assoc = .right ∧ precedence op = precedence inner

/-- All operators in the operands of an operator may stand there. -/
inductive Grouping.Grouped (assoc : Associativity) : Grouping → Prop where
  | operand (v : Value) : Grouped assoc (.operand v)
  | apply {l r : Grouping} {op : BinaryOp} (left : Grouped assoc l) (right : Grouped assoc r)
    (before : ∀ o ∈ l.operators, FitsLeft assoc op o)
    (behind : ∀ o ∈ r.operators, FitsRight assoc op o) : Grouped assoc (.apply l op r)

/-- Values and operators on two stacks, the tops first. -/
structure Stacks where
  values : List Value
  operators : List BinaryOp

/-- Why a reduction on two stacks has no value. -/
inductive Shortcoming where
  | fault (f : Fault)
  /-- An operator was to be applied with fewer than two values on the stack, or at the end the stack
  did not hold exactly one. -/
  | values

namespace Stacks

/-- Applies operators from the top as long as `ready` says, each to the two topmost values. -/
def unwind (ready : BinaryOp → Bool) :
    (operators : List BinaryOp) → (values : List Value) → Heap → Except Shortcoming (Stacks × Heap)
  | [], values, h => .ok (⟨values, []⟩, h)
  | op :: operators, values, h =>
    if ready op then
      match values with
      | right :: left :: values => do
        let (v, h) ← (binary op left right h).mapError .fault
        unwind ready operators (v :: values) h
      | _ => .error .values
    else .ok (⟨values, op :: operators⟩, h)

/-- Goes through operators and right operands. -/
def reduceFrom (assoc : Associativity) :
    List (BinaryOp × Value) → Stacks → Heap → Except Shortcoming (Value × Heap)
  | [], s, h => do
    let (s, h) ← unwind (fun _ => true) s.operators s.values h
    match s.values with
    | [v] => return (v, h)
    | _ => .error .values
  | (op, next) :: rest, s, h => do
    let (s, h) ← unwind (fun top => precedence op < precedence top ||
      (assoc == .left && precedence op == precedence top)) s.operators s.values h
    reduceFrom assoc rest ⟨next :: s.values, op :: s.operators⟩ h

def reduce (assoc : Associativity) (first : Value) (rest : List (BinaryOp × Value)) (h : Heap) :
    Except Shortcoming (Value × Heap) :=
  reduceFrom assoc rest ⟨[first], []⟩ h

end Stacks

/-- Operators that are all known, with their right operands. -/
def known (rest : List (BinaryOp × Value)) : List (Word BinaryOp × Value) :=
  rest.map fun e => (.known e.1, e.2)

variable {assoc : Associativity}

theorem FitsLeft.trans {op p o : BinaryOp} (outer : FitsLeft assoc op p)
    (inner : FitsLeft assoc p o) : FitsLeft assoc op o := by
  unfold FitsLeft at *
  rcases outer with looser | ⟨left, same⟩
  · left
    omega
  · rw [same]
    exact inner

theorem FitsLeft.trans_right {op p o : BinaryOp} (outer : FitsLeft assoc op p)
    (inner : FitsRight assoc p o) : FitsLeft assoc op o := by
  unfold FitsLeft FitsRight at *
  rcases inner with tighter | ⟨rfl, same⟩
  · omega
  · rcases outer with looser | ⟨left, -⟩
    · omega
    · cases left

/-- Two operators never fit into each other from both sides. -/
theorem FitsLeft.not_right {p q : BinaryOp} (left : FitsLeft assoc q p) : ¬ FitsRight assoc p q := by
  intro right
  unfold FitsLeft FitsRight at *
  rcases left with looser | ⟨rfl, same⟩
  · omega
  · rcases right with looser | ⟨other, -⟩
    · omega
    · cases other

theorem yields_eq_true {pending next : BinaryOp} :
    yields assoc pending next = true ↔ FitsLeft assoc next pending := by
  simp only [yields, FitsLeft, Bool.or_eq_true, decide_eq_true_eq, Bool.and_eq_true, beq_iff_eq]

theorem yields_eq_false {pending next : BinaryOp} :
    yields assoc pending next = false ↔ FitsRight assoc pending next := by
  rw [← Bool.not_eq_true, yields_eq_true, FitsLeft, FitsRight]
  cases assoc with
  | left =>
    simp only [true_and, reduceCtorEq, false_and, or_false]
    omega
  | right =>
    simp only [true_and, reduceCtorEq, false_and, or_false]
    omega

/-! ### Reduction on one stack -/

/-- The operator on top of the stack is not applied before the given one. -/
def Waits (assoc : Associativity) (pending : Pending) (op : BinaryOp) : Prop :=
  ∀ e ∈ pending.head?, yields assoc e.2 op = false

theorem applyWhile_of_waits {pending : Pending} {op : BinaryOp} (waits : Waits assoc pending op)
    (v : Value) (h : Heap) :
    applyWhile (fun p => yields assoc p op) pending v h = .ok (pending, v, h) := by
  cases pending with
  | nil => rfl
  | cons e pending =>
    have stays := waits e rfl
    simp only [applyWhile, stays, Bool.false_eq_true, if_false]

/-- What comes next applies the operator on top, or nothing comes next. -/
theorem reduceFrom_apply {op : BinaryOp} {more : List (BinaryOp × Value)}
    (ready : ∀ e ∈ more.head?, yields assoc op e.1 = true) (left right : Value) (pending : Pending)
    (h : Heap) :
    reduceFrom assoc (known more) ((left, op) :: pending) right h = (do
      let (v, h) ← binary op left right h
      reduceFrom assoc (known more) pending v h) := by
  cases more with
  | nil =>
    simp only [known, List.map_nil, reduceFrom, applyWhile, if_true]
    cases binary op left right h with
    | ok r => rfl
    | error fault => rfl
  | cons e more =>
    have applied := ready e rfl
    simp only [known, List.map_cons, reduceFrom, applyWhile, applied, if_true]
    cases binary op left right h with
    | ok r => rfl
    | error fault => rfl

/-- The operands of a grouping are reduced to its value, whatever waits below them and whatever
comes behind them. -/
theorem reduceFrom_grouped {t : Grouping} (grouped : t.Grouped assoc)
    (more : List (BinaryOp × Value)) (pending : Pending) (h : Heap)
    (waits : ∀ o ∈ t.operators, Waits assoc pending o)
    (ready : ∀ o ∈ t.operators, ∀ e ∈ more.head?, yields assoc o e.1 = true) :
    reduceFrom assoc (known (t.rest ++ more)) pending t.first h = (do
      let (v, h) ← t.eval h
      reduceFrom assoc (known more) pending v h) := by
  induction grouped generalizing more pending h with
  | operand v => rfl
  | @apply l r op _ _ before behind left right =>
    have root : op ∈ (Grouping.apply l op r).operators := by
      simp [Grouping.operators, Grouping.rest]
    have below (o : BinaryOp) (member : o ∈ l.operators ∨ o ∈ r.operators) :
        o ∈ (Grouping.apply l op r).operators := by
      simp only [Grouping.operators, Grouping.rest, List.map_append, List.map_cons,
        List.mem_append, List.mem_cons]
      exact member.imp_right .inr
    -- the operator takes its left operand as soon as it is read
    have reads := left ((op, r.first) :: (r.rest ++ more)) pending h
      (fun o member => waits o (below o (.inl member)))
      (by
        intro o member e same
        cases same
        exact yields_eq_true.mpr (before o member))
    -- then the right operand is reduced above it
    have reduces (v : Value) (h : Heap) := right more ((v, op) :: pending) h
      (by
        intro o member e same
        cases same
        exact yields_eq_false.mpr (behind o member))
      (fun o member => ready o (below o (.inr member)))
    have step (v : Value) (h : Heap) :
        reduceFrom assoc (known ((op, r.first) :: (r.rest ++ more))) pending v h =
          reduceFrom assoc (known (r.rest ++ more)) ((v, op) :: pending) r.first h := by
      rw [known, List.map_cons, reduceFrom, applyWhile_of_waits (waits op root)]
      rfl
    rw [Grouping.rest, List.append_assoc, List.cons_append, Grouping.first, reads, Grouping.eval,
      bind_assoc]
    congr 1
    funext result
    obtain ⟨v, h⟩ := result
    dsimp only
    rw [step, reduces, bind_assoc]
    congr 1
    funext result
    obtain ⟨w, h⟩ := result
    exact reduceFrom_apply (ready op root) v w pending h

/-- Reducing operands is evaluating their grouping. -/
theorem reduce_grouped {t : Grouping} (grouped : t.Grouped assoc) (h : Heap) :
    reduce assoc t.first (known t.rest) h = t.eval h := by
  have whole := reduceFrom_grouped grouped [] [] h (fun _ _ _ none => by cases none)
    (fun _ _ _ none => by cases none)
  rw [List.append_nil] at whole
  rw [reduce, whole]
  cases t.eval h with
  | ok r => rfl
  | error fault => rfl

/-! ### Reduction on two stacks -/

/-- A value stack always holds one value more than the operators that wait. -/
theorem unwind_eq (ready : BinaryOp → Bool) (pending : Pending) (v : Value) (h : Heap) :
    Stacks.unwind ready (pending.map (·.2)) (v :: pending.map (·.1)) h =
      ((applyWhile ready pending v h).mapError .fault).map fun (pending, v, h) =>
        (⟨v :: pending.map (·.1), pending.map (·.2)⟩, h) := by
  induction pending generalizing v h with
  | nil => rfl
  | cons e pending ih =>
    obtain ⟨left, op⟩ := e
    simp only [List.map_cons, Stacks.unwind, applyWhile]
    cases applies : ready op with
    | false => rfl
    | true =>
      simp only [if_true]
      cases binary op left v h with
      | error fault => rfl
      | ok r =>
        obtain ⟨w, h⟩ := r
        exact ih w h

/-- When all operators are applied, none waits. -/
theorem applyWhile_all {pending left : Pending} {v w : Value} {h h' : Heap}
    (applied : applyWhile (fun _ => true) pending v h = .ok (left, w, h')) : left = [] := by
  induction pending generalizing v h with
  | nil =>
    cases applied
    rfl
  | cons e pending ih =>
    obtain ⟨l, op⟩ := e
    simp only [applyWhile, if_true] at applied
    split at applied
    · exact ih applied
    · cases applied

theorem stacks_reduceFrom_eq (rest : List (BinaryOp × Value)) (pending : Pending) (v : Value)
    (h : Heap) :
    Stacks.reduceFrom assoc rest ⟨v :: pending.map (·.1), pending.map (·.2)⟩ h =
      (reduceFrom assoc (known rest) pending v h).mapError .fault := by
  induction rest generalizing pending v h with
  | nil =>
    simp only [Stacks.reduceFrom, unwind_eq, known, List.map_nil, reduceFrom]
    cases applied : applyWhile (fun _ => true) pending v h with
    | error fault => rfl
    | ok r =>
      obtain ⟨left, w, h'⟩ := r
      obtain rfl := applyWhile_all applied
      rfl
  | cons e rest ih =>
    obtain ⟨op, next⟩ := e
    change (do
      let (s, h) ← Stacks.unwind (fun top => yields assoc top op) _ _ h
      Stacks.reduceFrom assoc rest ⟨next :: s.values, op :: s.operators⟩ h) = _
    simp only [unwind_eq, known, List.map_cons, reduceFrom]
    cases applyWhile (fun top => yields assoc top op) pending v h with
    | error fault => rfl
    | ok r =>
      obtain ⟨left, w, h'⟩ := r
      exact ih ((w, op) :: left) next h'

/-- Two stacks never run short of values. -/
theorem stacks_reduce_eq (first : Value) (rest : List (BinaryOp × Value)) (h : Heap) :
    Stacks.reduce assoc first rest h = (reduce assoc first (known rest) h).mapError .fault :=
  stacks_reduceFrom_eq rest [] first h

/-! ### The grouping of operands -/

namespace Grouping

/-- One more operator and operand at the right end. -/
def extend (assoc : Associativity) : Grouping → BinaryOp → Value → Grouping
  | operand u, op, v => apply (operand u) op (operand v)
  | apply left p right, op, v =>
    if yields assoc p op then apply (apply left p right) op (operand v)
    else apply left p (right.extend assoc op v)

@[simp] theorem first_extend (t : Grouping) (op : BinaryOp) (v : Value) :
    (t.extend assoc op v).first = t.first := by
  cases t with
  | operand u => rfl
  | apply left p right =>
    unfold extend
    split
    · rfl
    · rfl

@[simp] theorem rest_extend (t : Grouping) (op : BinaryOp) (v : Value) :
    (t.extend assoc op v).rest = t.rest ++ [(op, v)] := by
  induction t with
  | operand u => rfl
  | apply left p right _ ih =>
    unfold extend
    split
    · rfl
    · rw [rest, ih, rest, List.append_assoc, List.cons_append, first_extend]

theorem operators_apply {l r : Grouping} {p o : BinaryOp} :
    o ∈ (apply l p r).operators ↔ o ∈ l.operators ∨ o = p ∨ o ∈ r.operators := by
  simp only [operators, rest, List.map_append, List.map_cons, List.mem_append, List.mem_cons]

theorem Grouped.extend {t : Grouping} (grouped : t.Grouped assoc) (op : BinaryOp) (v : Value) :
    (t.extend assoc op v).Grouped assoc := by
  induction grouped with
  | operand u =>
    apply Grouped.apply (.operand u) (.operand v)
    · intro o none
      cases none
    · intro o none
      cases none
  | @apply l r p left right before behind _ ih =>
    unfold Grouping.extend
    split
    next applied =>
      apply Grouped.apply (.apply left right before behind) (.operand v)
      · intro o member
        have root := yields_eq_true.mp applied
        rcases operators_apply.mp member with member | rfl | member
        · exact root.trans (before o member)
        · exact root
        · exact root.trans_right (behind o member)
      · intro o none
        cases none
    next waits =>
      apply Grouped.apply left ih before
      intro o member
      rw [operators, rest_extend, List.map_append, List.mem_append] at member
      rcases member with member | last
      · exact behind o member
      · obtain rfl := List.mem_singleton.mp last
        exact yields_eq_false.mp (Bool.eq_false_iff.mpr waits)

/-- A grouping can be extended by any operators and operands. -/
theorem Grouped.exists_append {t : Grouping} (grouped : t.Grouped assoc)
    (more : List (BinaryOp × Value)) :
    ∃ u : Grouping, u.Grouped assoc ∧ u.first = t.first ∧ u.rest = t.rest ++ more := by
  induction more generalizing t with
  | nil => exact ⟨t, grouped, rfl, (List.append_nil _).symm⟩
  | cons e more ih =>
    obtain ⟨u, all, first, rest⟩ := ih (grouped.extend e.1 e.2)
    refine ⟨u, all, ?_, ?_⟩
    · rw [first, first_extend]
    · rw [rest, rest_extend, List.append_assoc, List.singleton_append]

/-- Where two lists with a marked element agree, the marks do too, or each mark stands on the other
side of the other one. -/
theorem marks_agree_or_cross {α : Type} {xs ys xs' ys' : List α} {a b : α}
    (same : xs ++ a :: ys = xs' ++ b :: ys') :
    (xs = xs' ∧ a = b ∧ ys = ys') ∨ (a ∈ xs' ∧ b ∈ ys) ∨ (b ∈ xs ∧ a ∈ ys') := by
  rcases List.append_eq_append_iff.mp same with ⟨between, longer, rest⟩ | ⟨between, longer, rest⟩
  · cases between with
    | nil =>
      cases rest
      exact .inl ⟨(List.append_nil xs ▸ longer).symm, rfl, rfl⟩
    | cons c between =>
      cases rest
      right
      left
      constructor
      · simp [longer]
      · simp
  · cases between with
    | nil =>
      cases rest
      exact .inl ⟨List.append_nil xs' ▸ longer, rfl, rfl⟩
    | cons c between =>
      cases rest
      right
      right
      constructor
      · simp [longer]
      · simp

/-- There is only one way to group operands. -/
theorem Grouped.unique {t u : Grouping} (grouped : t.Grouped assoc) (other : u.Grouped assoc)
    (first : t.first = u.first) (rest : t.rest = u.rest) : t = u := by
  induction grouped generalizing u with
  | operand v =>
    cases other with
    | operand w => exact congrArg Grouping.operand first
    | apply _ _ _ _ => simp [Grouping.rest] at rest
  | @apply l r p _ _ before behind left right =>
    cases other with
    | operand w => simp [Grouping.rest] at rest
    | @apply l' r' q left' right' before' behind' =>
      -- neither root stands in an operand of the other one
      rcases marks_agree_or_cross rest with ⟨lefts, roots, rights⟩ | ⟨inside, other⟩ | ⟨inside, other⟩
      · obtain ⟨rfl, firsts⟩ := Prod.mk.inj roots
        rw [left left' first lefts, right right' firsts rights]
      · have fits := before' p (List.mem_map_of_mem inside)
        exact absurd (behind q (List.mem_map_of_mem other)) fits.not_right
      · have fits := before q (List.mem_map_of_mem inside)
        exact absurd (behind' p (List.mem_map_of_mem other)) fits.not_right

end Grouping

/-- Operands joined by operators have exactly one tree with the given order that respects precedence
and associativity. Reducing the operands gives what this tree evaluates to, the first fault included,
and so does reducing them on two stacks: there are two values on the stack whenever an operator is
applied, and one at the end. -/
theorem reduction_follows_precedence (assoc : Associativity) (first : Value)
    (rest : List (BinaryOp × Value)) :
    ∃ t : Grouping, (∀ u : Grouping, u.Grouped assoc ∧ u.first = first ∧ u.rest = rest ↔ u = t) ∧
      ∀ h, reduce assoc first (known rest) h = t.eval h ∧
        Stacks.reduce assoc first rest h = (t.eval h).mapError .fault := by
  have operand : Grouping.Grouped assoc (.operand first) := .operand first
  obtain ⟨t, grouped, rfl, others⟩ := operand.exists_append rest
  obtain rfl : t.rest = rest := others
  refine ⟨t, fun u => ?_, fun h => ?_⟩
  · constructor
    · rintro ⟨other, first, rest⟩
      exact other.unique grouped first rest
    · rintro rfl
      exact ⟨grouped, rfl, rfl⟩
  · have value := reduce_grouped grouped h
    constructor
    · exact value
    · rw [stacks_reduce_eq, value]

example : reduce .right (.int 4) (known [(.add, .int 2), (.multiply, .int 3)]) .empty =
    .ok (.int 10, .empty) := rfl

example : reduce .left (.int 2) (known [(.multiply, .int 3), (.add, .int 4)]) .empty =
    .ok (.int 10, .empty) := rfl

/-- Equal operators group to the right, or to the left. -/
example : reduce .right (.int 10) (known [(.subtract, .int 3), (.subtract, .int 2)]) .empty =
      .ok (.int 9, .empty) ∧
    reduce .left (.int 10) (known [(.subtract, .int 3), (.subtract, .int 2)]) .empty =
      .ok (.int 5, .empty) := ⟨rfl, rfl⟩

end CellScript.Operators
