import CellScript.Proofs.Optimize.Revision

/-! Trees at rest. A part rests under some rules if they apply nowhere inside of it. A walk leaves
such a part as it is and says so; any other part it changes. -/
namespace CellScript.Optimize

namespace Part

/-- The parts directly below a part. -/
def parts : Part → List Part
  | expr .missing => []
  | expr (.mk _ xs _) => xs.map operand
  | operand (.mk _ _ p _) => [primary p]
  | primary (.read ..) => []
  | primary (.ref _ _ ts) => ts.map tail
  | primary (.literal _ l) => [literal l]
  | primary (.paren _ e) => [expr e]
  | tail (.index ..) | tail (.field ..) => []
  | tail (.subscript _ e) => [expr e]
  | tail (.call _ es) => es.map expr
  | literal (.array _ es) => es.map expr
  | literal (.tuple _ es) => es.map element
  | literal (.function _ _ b) => [body b]
  | literal (.lambda _ _ e) => [expr e]
  | literal _ => []
  | element (.mk _ _ e) => [expr e]
  | statement (.declare _ _ e) => [expr e]
  | statement (.assign _ p _ e) => [primary p, expr e]
  | statement (.branch _ e yes no) => [expr e, body yes, body no]
  | statement (.forLoop _ _ low high b) => [expr low, expr high, body b]
  | statement (.whileLoop _ e b) => [expr e, body b]
  | statement (.print _ es) => es.map expr
  | statement (.ret _ e) => [expr e]
  | statement (.brk _) | statement (.cont _) => []
  | statement (.block b) => [body b]
  | body .missing => []
  | body (.mk _ ss _) => ss.map statement

/-- One part stands somewhere inside another one, or is that part. -/
def Within : Part → Part → Prop := Relation.ReflTransGen fun b a => b ∈ a.parts

theorem sizeOf_lt_of_map {α : Type} [SizeOf α] {f : α → Part}
    (size : ∀ x, sizeOf (f x) = 1 + sizeOf x) {xs : List α} {b : Part} (member : b ∈ xs.map f) :
    sizeOf b < 1 + sizeOf xs := by
  obtain ⟨x, inside, rfl⟩ := List.mem_map.mp member
  have smaller := List.sizeOf_lt_of_mem inside
  have same := size x
  omega

theorem sizeOf_lt {a b : Part} (member : b ∈ a.parts) : sizeOf b < sizeOf a := by
  unfold parts at member
  split at member
  -- a part has no parts, a list of them or up to three single ones
  all_goals first
    | exact absurd member List.not_mem_nil
    | have smaller := sizeOf_lt_of_map (fun _ => rfl) member
      simp
      omega
    | simp only [List.mem_cons, List.not_mem_nil, or_false] at member
      rcases member with rfl | rfl | rfl <;> simp <;> omega

/-- What passes from the parts of every part to the part itself holds of all. -/
theorem induct {P : Part → Prop} (step : ∀ a, (∀ b ∈ a.parts, P b) → P a) (a : Part) : P a :=
  step a fun b _ => induct step b
termination_by sizeOf a
decreasing_by exact sizeOf_lt ‹_›

/-- What a rule makes of the part itself. -/
def revise (r : Rules) : Part → Option Part
  | expr (.mk span xs ops) => (r.expr (.mk span xs ops)).map expr
  | primary (.paren span e) => (r.paren (.paren span e)).map primary
  | body (.mk span ss cleared) => (r.body (.mk span ss cleared)).map body
  | _ => none

/-- The part after a walk through the parts below it. -/
def beneath (r : Rules) : Part → Part
  | expr (.mk span xs ops) => expr (.mk span (Walk.operands r xs).value ops)
  | primary (.paren span e) => primary (.paren span (Walk.expr r e).value)
  | body (.mk span ss cleared) => body (.mk span (Walk.statements r ss).value cleared)
  | a => a.walk r

/-- Whether a walk changes something in the part, as it says itself. -/
def changed (r : Rules) : Part → Bool
  | expr e => (Walk.expr r e).changed
  | operand x => (Walk.operand r x).changed
  | primary p => (Walk.primary r p).changed
  | tail t => (Walk.tail r t).changed
  | literal l => (Walk.literal r l).changed
  | element e => (Walk.element r e).changed
  | statement s => (Walk.statement r s).changed
  | body b => (Walk.body r b).changed

end Part

namespace Walk

theorem statements_value (r : Rules) (ss : List Statement) :
    (statements r ss).value = ss.map fun s => (statement r s).value := by
  induction ss with
  | nil => rfl
  | cons s ss ih =>
    rw [List.map_cons, ← ih]
    rfl

end Walk

namespace Revised

variable {α β : Type}

@[simp] theorem changed_ofOption (old : α) (new : Option α) :
    (ofOption old new).changed = new.isSome := by
  cases new <;> rfl

@[simp] theorem changed_pure (a : α) : (pure a : Revised α).changed = false := rfl

@[simp] theorem changed_bind (x : Revised α) (f : α → Revised β) :
    (x >>= f).changed = (x.changed || (f x.value).changed) := rfl

@[simp] theorem value_pure (a : α) : (pure a : Revised α).value = a := rfl

@[simp] theorem value_bind (x : Revised α) (f : α → Revised β) :
    (x >>= f).value = (f x.value).value := rfl

end Revised

namespace Part

variable {r : Rules}

theorem map_walk {α : Type} {f : α → Part} {g : α → α} {xs ys : List α} (walked : ys = xs.map g)
    (same : ∀ x, f (g x) = (f x).walk r) : ys.map f = (xs.map f).map (walk r) := by
  simp only [walked, List.map_map, Function.comp_def, same]

/-- The walk goes through all parts below. -/
theorem parts_beneath (r : Rules) (a : Part) : (a.beneath r).parts = a.parts.map (walk r) := by
  cases a with
  | expr e =>
    cases e with
    | missing => rfl
    | mk span xs ops => exact map_walk (Walk.operands_value r xs) fun _ => rfl
  | operand x =>
    cases x
    rfl
  | primary p =>
    cases p with
    | ref span name ts => exact map_walk (Walk.tails_value r ts) fun _ => rfl
    | read | literal | paren => rfl
  | tail t =>
    cases t with
    | call span es => exact map_walk (Walk.exprs_value r es) fun _ => rfl
    | index | field | subscript => rfl
  | literal l =>
    cases l with
    | array span es => exact map_walk (Walk.exprs_value r es) fun _ => rfl
    | tuple span es => exact map_walk (Walk.elements_value r es) fun _ => rfl
    | _ => rfl
  | element e =>
    cases e
    rfl
  | statement s =>
    cases s with
    | print span es => exact map_walk (Walk.exprs_value r es) fun _ => rfl
    | _ => rfl
  | body b =>
    cases b with
    | missing => rfl
    | mk span ss cleared => exact map_walk (Walk.statements_value r ss) fun _ => rfl

theorem walk_eq (r : Rules) (a : Part) :
    a.walk r = ((a.beneath r).revise r).getD (a.beneath r) := by
  cases a with
  | expr e =>
    cases e with
    | missing => rfl
    | mk span xs ops =>
      rw [walk, Walk.expr_mk, beneath, revise]
      cases r.expr (.mk span (Walk.operands r xs).value ops) <;> rfl
  | primary p =>
    cases p with
    | paren span e =>
      rw [walk, Walk.primary_paren, beneath, revise]
      cases r.paren (.paren span (Walk.expr r e).value) <;> rfl
    | read | ref | literal => rfl
  | body b =>
    cases b with
    | missing => rfl
    | mk span ss cleared =>
      rw [walk, Walk.body_mk, beneath, revise]
      cases r.body (.mk span (Walk.statements r ss).value cleared) <;> rfl
  | operand | tail | literal | element | statement => rfl

/-- A list changes if one of its items does. -/
theorem changed_list {α : Type} {f : α → Part} {all : List α → Revised (List α)}
    (nil : (all []).changed = false)
    (cons : ∀ x xs, (all (x :: xs)).changed = ((f x).changed r || ((all xs).changed || false)))
    (xs : List α) : (all xs).changed = (xs.map f).any (changed r) := by
  induction xs with
  | nil => exact nil
  | cons x xs ih => rw [cons, ih, Bool.or_false, List.map_cons, List.any_cons]

/-- A walk says that it changed something where it changed a part below or a rule applied. -/
theorem changed_eq (r : Rules) (a : Part) :
    a.changed r = (a.parts.any (changed r) || ((a.beneath r).revise r).isSome) := by
  have exprs (es : List Expr) : (Walk.exprs r es).changed = (es.map expr).any (changed r) :=
    changed_list rfl (fun _ _ => rfl) es
  cases a with
  | expr e =>
    cases e with
    | missing => rfl
    | mk span xs ops =>
      have operands : (Walk.operands r xs).changed = (xs.map operand).any (changed r) :=
        changed_list rfl (fun _ _ => rfl) xs
      simp only [changed, Walk.expr, Revised.changed_bind, Revised.changed_ofOption, operands, parts,
        beneath, revise, Option.isSome_map]
  | operand x =>
    cases x
    simp [changed, Walk.operand, parts, beneath, revise, walk]
  | primary p =>
    cases p with
    | paren span inner =>
      simp only [changed, Walk.primary, Revised.changed_bind, Revised.changed_ofOption, parts,
        beneath, revise, Option.isSome_map, List.any_cons, List.any_nil, Bool.or_false]
    | ref span name ts =>
      have tails : (Walk.tails r ts).changed = (ts.map tail).any (changed r) :=
        changed_list rfl (fun _ _ => rfl) ts
      simp [changed, Walk.primary, parts, beneath, revise, walk, tails, -List.any_map]
    | read | literal => simp [changed, Walk.primary, parts, beneath, revise, walk]
  | tail t =>
    cases t <;> simp [changed, Walk.tail, parts, beneath, revise, walk, exprs, -List.any_map]
  | literal l =>
    have elements (es : List Element) :
        (Walk.elements r es).changed = (es.map element).any (changed r) :=
      changed_list rfl (fun _ _ => rfl) es
    cases l <;>
      simp [changed, Walk.literal, parts, beneath, revise, walk, exprs, elements, -List.any_map]
  | element e =>
    cases e
    simp [changed, Walk.element, parts, beneath, revise, walk]
  | statement s =>
    cases s <;> simp [changed, Walk.statement, parts, beneath, revise, walk, exprs, -List.any_map]
  | body b =>
    cases b with
    | missing => rfl
    | mk span ss cleared =>
      have statements : (Walk.statements r ss).changed = (ss.map statement).any (changed r) :=
        changed_list rfl (fun _ _ => rfl) ss
      simp only [changed, Walk.body, Revised.changed_bind, Revised.changed_ofOption, statements,
        parts, beneath, revise, Option.isSome_map]

/-- A list stays if all of its items do. -/
theorem list_still {α : Type} {f : α → Part} {g : α → α} {xs ys : List α} (walked : ys = xs.map g)
    (same : ∀ x, f (g x) = (f x).walk r) (injective : Function.Injective f)
    (still : ∀ b ∈ xs.map f, b.walk r = b) : ys = xs := by
  have each : ∀ x ∈ xs, g x = id x := fun x inside =>
    injective ((same x).trans (still _ (List.mem_map_of_mem inside)))
  rw [walked, List.map_congr_left each, List.map_id]

/-- A walk through parts that it leaves alone. -/
theorem beneath_still {a : Part} (still : ∀ b ∈ a.parts, b.walk r = b) : a.beneath r = a := by
  have exprs (es : List Expr) (still : ∀ b ∈ es.map expr, b.walk r = b) :
      (Walk.exprs r es).value = es :=
    list_still (Walk.exprs_value r es) (fun _ => rfl) (fun _ _ => expr.inj) still
  cases a with
  | expr e =>
    cases e with
    | missing => rfl
    | mk span xs ops =>
      rw [beneath, list_still (Walk.operands_value r xs) (fun _ => rfl) (fun _ _ => operand.inj)
        still]
  | operand x =>
    cases x
    simp_all [parts, beneath, walk, Walk.operand]
  | primary p =>
    cases p with
    | ref span name ts =>
      have tails := list_still (Walk.tails_value r ts) (fun _ => rfl) (fun _ _ => tail.inj) still
      simp [beneath, walk, Walk.primary, tails]
    | read | literal | paren => simp_all [parts, beneath, walk, Walk.primary]
  | tail t =>
    cases t with
    | call span es => simp [beneath, walk, Walk.tail, exprs es still]
    | index | field | subscript => simp_all [parts, beneath, walk, Walk.tail]
  | literal l =>
    cases l with
    | array span es => simp [beneath, walk, Walk.literal, exprs es still]
    | tuple span es =>
      have elements := list_still (Walk.elements_value r es) (fun _ => rfl)
        (fun _ _ => element.inj) still
      simp [beneath, walk, Walk.literal, elements]
    | _ => simp_all [parts, beneath, walk, Walk.literal]
  | element e =>
    cases e
    simp_all [parts, beneath, walk, Walk.element]
  | statement s =>
    cases s with
    | print span es => simp [beneath, walk, Walk.statement, exprs es still]
    | _ => simp_all [parts, beneath, walk, Walk.statement]
  | body b =>
    cases b with
    | missing => rfl
    | mk span ss cleared =>
      rw [beneath, list_still (Walk.statements_value r ss) (fun _ => rfl)
        (fun _ _ => statement.inj) still]

end Part

/-- No rule applies to the part or to one inside of it. -/
inductive Rests (r : Rules) : Part → Prop where
  | mk {a : Part} (here : a.revise r = none) (inside : ∀ b ∈ a.parts, Rests r b) : Rests r a

namespace Rests

variable {r q : Rules} {a b : Part}

theorem here (rests : Rests r a) : a.revise r = none := by
  cases rests with
  | mk here _ => exact here

theorem inside (rests : Rests r a) : ∀ b ∈ a.parts, Rests r b := by
  cases rests with
  | mk _ inside => exact inside

theorem within (rests : Rests r a) (within : b.Within a) : Rests r b := by
  induction within using Relation.ReflTransGen.head_induction_on with
  | refl => exact rests
  | head member _ ih => exact ih.inside _ member

/-- A walk leaves a part at rest as it is, and says so. -/
theorem walk_eq (rests : Rests r a) : a.walk r = a ∧ a.changed r = false := by
  induction rests with
  | @mk a here _ ih =>
    have still : a.beneath r = a := Part.beneath_still fun b member => (ih b member).1
    constructor
    · rw [Part.walk_eq, still, here, Option.getD_none]
    · rw [Part.changed_eq, still, here, Option.isSome_none, Bool.or_false, List.any_eq_false]
      exact fun b member => Bool.eq_false_iff.mp (ih b member).2

/-- What a walk says that it did not change was at rest. -/
theorem of_unchanged (unchanged : a.changed r = false) : Rests r a := by
  induction a using Part.induct with
  | step a ih =>
    rw [Part.changed_eq, Bool.or_eq_false_iff, List.any_eq_false] at unchanged
    obtain ⟨below, here⟩ := unchanged
    have inside : ∀ b ∈ a.parts, Rests r b := fun b member =>
      ih b member (Bool.eq_false_iff.mpr (below b member))
    rw [Part.beneath_still fun b member => (inside b member).walk_eq.1] at here
    rw [Option.isSome_eq_false_iff, Option.isNone_iff_eq_none] at here
    exact .mk here inside

end Rests

/-- What the rules make of a part is at rest if the parts below it are. -/
def Rules.Settle (r : Rules) : Prop :=
  ∀ a b : Part, (∀ c ∈ a.parts, Rests r c) → a.revise r = some b → Rests r b

/-- A walk with the rules `q` wakes nothing that rests under `r`. -/
structure Rules.Spare (q r : Rules) : Prop where
  beneath : ∀ a : Part, a.revise r = .none → (a.beneath q).revise r = .none
  revise : ∀ a b : Part, Rests r a → a.revise q = some b → Rests r b

namespace Rests

variable {r q : Rules} {a : Part}

/-- One walk is enough. -/
theorem of_walk (settle : r.Settle) (a : Part) : Rests r (a.walk r) := by
  induction a using Part.induct with
  | step a ih =>
    have inside : ∀ b ∈ (a.beneath r).parts, Rests r b := by
      rw [Part.parts_beneath]
      exact List.forall_mem_map.mpr ih
    rw [Part.walk_eq]
    cases revised : (a.beneath r).revise r with
    | none => exact .mk revised inside
    | some b => exact settle _ b inside revised

theorem walk (rests : Rests r a) (spare : q.Spare r) : Rests r (a.walk q) := by
  induction rests with
  | @mk a here _ ih =>
    have below : Rests r (a.beneath q) := by
      refine .mk (spare.beneath a here) ?_
      rw [Part.parts_beneath]
      exact List.forall_mem_map.mpr ih
    rw [Part.walk_eq]
    cases revised : (a.beneath q).revise q with
    | none => exact below
    | some b => exact spare.revise _ b below revised

end Rests

end CellScript.Optimize
