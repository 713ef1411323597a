import CellScript.Proofs.Parsing.Spelling
import CellScript.Proofs.Tree.Regular

/-! The shape that evaluation counts on: whatever has to be there is there, each operator stands
between two operands, and the kinds of primaries are known ones. Trees of sources and of files have
this shape; in those of sources the operators are known, too. -/
namespace CellScript

namespace Formed

variable (words : Bool)

/-- A word of the vocabulary, if words have to be known. -/
def word {α : Type} [Vocabulary α] (w : Word α) : Bool := !words || w.isKnown

mutual

def expr : Expr → Bool
  | .missing => false
  | .mk _ xs ops => xs.length == ops.length + 1 && ops.all (word words) && operands xs

def exprs : List Expr → Bool
  | [] => true
  | e :: es => expr e && exprs es

def operand : Operand → Bool
  | .mk _ _ p _ => primary p

def operands : List Operand → Bool
  | [] => true
  | x :: xs => operand x && operands xs

def primary : Primary → Bool
  | .read _ kind => kind.isKnown
  | .ref _ _ ts => tails ts
  | .literal _ l => literal l
  | .paren _ inner => expr inner

def tail : Tail → Bool
  | .index _ _ | .field _ _ => true
  | .subscript _ key => expr key
  | .call _ arguments => exprs arguments

def tails : List Tail → Bool
  | [] => true
  | t :: ts => tail t && tails ts

def literal : Literal → Bool
  | .missing => false
  | .integer _ _ | .real _ _ | .boolean _ _ | .string _ _ | .empty _ => true
  | .array _ es => exprs es
  | .tuple _ es => elements es
  | .function _ _ b => body b
  | .lambda _ _ result => expr result

def element : Element → Bool
  | .mk _ _ value => expr value

def elements : List Element → Bool
  | [] => true
  | e :: es => element e && elements es

/-- Initial values, assigned values and results may be missing. -/
def statement : Statement → Bool
  | .declare _ _ initial => initial.isMissing || expr initial
  | .assign _ target op value =>
    primary target && op.all (word words) && (value.isMissing || expr value)
  | .branch _ condition yes no => expr condition && body yes && body no
  | .forLoop _ _ low high b => expr low && expr high && body b
  | .whileLoop _ condition b => expr condition && body b
  | .print _ arguments => exprs arguments
  | .ret _ value => value.isMissing || expr value
  | .brk _ | .cont _ => true
  | .block b => body b

def statements : List Statement → Bool
  | [] => true
  | s :: ss => statement s && statements ss

/-- A missing body does nothing. -/
def body : Body → Bool
  | .missing => true
  | .mk _ ss _ => statements ss

end

variable {words}

theorem exprs_iff {es : List Expr} : exprs words es ↔ ∀ e ∈ es, expr words e := by
  induction es with
  | nil => simp [exprs]
  | cons e es ih => simp [exprs, ih]

theorem operands_iff {xs : List Operand} : operands words xs ↔ ∀ x ∈ xs, operand words x := by
  induction xs with
  | nil => simp [operands]
  | cons x xs ih => simp [operands, ih]

theorem tails_iff {ts : List Tail} : tails words ts ↔ ∀ t ∈ ts, tail words t := by
  induction ts with
  | nil => simp [tails]
  | cons t ts ih => simp [tails, ih]

theorem elements_iff {es : List Element} : elements words es ↔ ∀ e ∈ es, element words e := by
  induction es with
  | nil => simp [elements]
  | cons e es ih => simp [elements, ih]

theorem statements_iff {ss : List Statement} :
    statements words ss ↔ ∀ s ∈ ss, statement words s := by
  induction ss with
  | nil => simp [statements]
  | cons s ss ih => simp [statements, ih]

end Formed

/-- Whether the program has the shape that evaluation counts on; `words` says whether its operators
have to be known. -/
def Program.isFormed (words : Bool) (p : Program) : Bool := Formed.body words p.body

/-! ### Trees in files -/

namespace Regular

theorem formed_word {α : Type} [Vocabulary α] (w : Word α) : Formed.word false w := rfl

/-- An expression that is there. -/
theorem formed_required {e : Expr} (there : e.isMissing = false)
    (formed : e.isMissing || Formed.expr false e) : Formed.expr false e := by
  rwa [there, Bool.false_or] at formed

mutual

theorem formed_expr : ∀ {e : Expr}, expr e → e.isMissing || Formed.expr false e
  | .missing, _ => rfl
  | .mk _ xs ops, regular => by
    simp only [expr, Bool.and_eq_true] at regular
    have inner := formed_operands regular.2
    simp [Formed.expr, formed_word, regular.1.2, inner]

theorem formed_exprs : ∀ {es : List Expr}, exprs es → Formed.exprs false es
  | [], _ => rfl
  | e :: es, regular => by
    simp only [exprs, Bool.and_eq_true, Bool.not_eq_true'] at regular
    rw [Formed.exprs, formed_required regular.1.1 (formed_expr regular.1.2), formed_exprs regular.2]
    rfl

theorem formed_operand : ∀ {x : Operand}, operand x → Formed.operand false x
  | .mk _ _ p _, regular => by
    simp only [operand, Bool.and_eq_true] at regular
    exact formed_primary regular.1.2

theorem formed_operands : ∀ {xs : List Operand}, operands xs → Formed.operands false xs
  | [], _ => rfl
  | x :: xs, regular => by
    simp only [operands, Bool.and_eq_true] at regular
    rw [Formed.operands, formed_operand regular.1, formed_operands regular.2]
    rfl

theorem formed_primary : ∀ {p : Primary}, primary p → Formed.primary false p
  | .read _ _, regular => by
    simp only [primary, Bool.and_eq_true] at regular
    exact regular.2
  | .ref _ _ ts, regular => by
    simp only [primary, Bool.and_eq_true] at regular
    exact formed_tails regular.2
  | .literal _ l, regular => by
    simp only [primary, Bool.and_eq_true] at regular
    exact formed_literal regular.2
  | .paren _ inner, regular => by
    simp only [primary, Bool.and_eq_true, Bool.not_eq_true'] at regular
    exact formed_required regular.1.2 (formed_expr regular.2)

theorem formed_tail : ∀ {t : Tail}, tail t → Formed.tail false t
  | .index _ _, _ | .field _ _, _ => rfl
  | .subscript _ key, regular => by
    simp only [tail, Bool.and_eq_true, Bool.not_eq_true'] at regular
    exact formed_required regular.1.2 (formed_expr regular.2)
  | .call _ arguments, regular => by
    simp only [tail, Bool.and_eq_true] at regular
    exact formed_exprs regular.2

theorem formed_tails : ∀ {ts : List Tail}, tails ts → Formed.tails false ts
  | [], _ => rfl
  | t :: ts, regular => by
    simp only [tails, Bool.and_eq_true] at regular
    rw [Formed.tails, formed_tail regular.1, formed_tails regular.2]
    rfl

theorem formed_literal : ∀ {l : Literal}, literal l → Formed.literal false l
  | .missing, regular => by cases regular
  | .integer _ _, _ | .real _ _, _ | .boolean _ _, _ | .string _ _, _ | .empty _, _ => rfl
  | .array _ es, regular => by
    simp only [literal, Bool.and_eq_true] at regular
    exact formed_exprs regular.2
  | .tuple _ es, regular => by
    simp only [literal, Bool.and_eq_true] at regular
    exact formed_elements regular.2
  | .function _ _ b, regular => by
    simp only [literal, Bool.and_eq_true] at regular
    exact formed_body regular.2
  | .lambda _ _ result, regular => by
    simp only [literal, Bool.and_eq_true, Bool.not_eq_true'] at regular
    exact formed_required regular.1.2 (formed_expr regular.2)

theorem formed_element : ∀ {e : Element}, element e → Formed.element false e
  | .mk _ _ value, regular => by
    simp only [element, Bool.and_eq_true, Bool.not_eq_true'] at regular
    exact formed_required regular.1.2 (formed_expr regular.2)

theorem formed_elements : ∀ {es : List Element}, elements es → Formed.elements false es
  | [], _ => rfl
  | e :: es, regular => by
    simp only [elements, Bool.and_eq_true] at regular
    rw [Formed.elements, formed_element regular.1, formed_elements regular.2]
    rfl

theorem formed_statement : ∀ {s : Statement}, statement s → Formed.statement false s
  | .declare _ _ initial, regular => by
    simp only [statement, Bool.and_eq_true] at regular
    exact formed_expr regular.2
  | .assign _ target op value, regular => by
    simp only [statement, Bool.and_eq_true] at regular
    have assigned := formed_expr regular.2
    have place := formed_primary regular.1.1.2
    cases op <;> simp [Formed.statement, place, assigned, formed_word]
  | .branch _ condition yes no, regular => by
    simp only [statement, Bool.and_eq_true, Bool.not_eq_true'] at regular
    obtain ⟨⟨⟨⟨⟨-, there⟩, asked⟩, -⟩, first⟩, other⟩ := regular
    simp [Formed.statement, formed_required there (formed_expr asked), formed_body first, formed_body other]
  | .forLoop _ _ low high b, regular => by
    simp only [statement, Bool.and_eq_true, Bool.not_eq_true'] at regular
    obtain ⟨⟨⟨⟨⟨⟨-, hasLow⟩, low⟩, hasHigh⟩, high⟩, -⟩, inner⟩ := regular
    simp [Formed.statement, formed_required hasLow (formed_expr low), formed_required hasHigh (formed_expr high),
      formed_body inner]
  | .whileLoop _ condition b, regular => by
    simp only [statement, Bool.and_eq_true, Bool.not_eq_true'] at regular
    obtain ⟨⟨⟨⟨-, there⟩, asked⟩, -⟩, inner⟩ := regular
    simp [Formed.statement, formed_required there (formed_expr asked), formed_body inner]
  | .print _ arguments, regular => by
    simp only [statement, Bool.and_eq_true] at regular
    exact formed_exprs regular.2
  | .ret _ value, regular => by
    simp only [statement, Bool.and_eq_true] at regular
    exact formed_expr regular.2
  | .brk _, _ | .cont _, _ => rfl
  | .block b, regular => by
    simp only [statement, Bool.and_eq_true] at regular
    exact formed_body regular.2

theorem formed_statements : ∀ {ss : List Statement}, statements ss → Formed.statements false ss
  | [], _ => rfl
  | s :: ss, regular => by
    simp only [statements, Bool.and_eq_true] at regular
    rw [Formed.statements, formed_statement regular.1, formed_statements regular.2]
    rfl

theorem formed_body : ∀ {b : Body}, body b → Formed.body false b
  | .missing, _ => rfl
  | .mk _ ss _, regular => by
    simp only [body, Bool.and_eq_true] at regular
    exact formed_statements regular.2

end

end Regular

/-- A tree in a file may have unknown words, and is formed otherwise. -/
theorem Program.isFormed_of_isRegular {p : Program} (regular : p.isRegular) : p.isFormed false := by
  simp only [isRegular, Bool.and_eq_true] at regular
  exact Regular.formed_body regular.2

/-! ### Trees of sources -/

namespace Expressible

variable {words : Bool}

theorem formed_words {α : Type} [Vocabulary α] {ws : List (Word α)} (known : ws.all Word.isKnown) :
    ws.all (Formed.word words) := by
  simp only [List.all_eq_true] at known ⊢
  intro w member
  simp [Formed.word, known w member]

theorem formed_optional {e : Expr} (formed : expr true e → Formed.expr words e)
    (expressible : e.isMissing || expr true e) : e.isMissing || Formed.expr words e := by
  rw [Bool.or_eq_true] at expressible ⊢
  exact expressible.imp id formed

mutual

theorem formed_expr : ∀ e : Expr, expr true e → Formed.expr words e
  | .missing, expressible => by cases expressible
  | .mk _ xs ops, expressible => by
    simp only [expr, Bool.and_eq_true, beq_iff_eq] at expressible
    obtain ⟨⟨⟨-, count⟩, known⟩, inner⟩ := expressible
    simp [Formed.expr, count, formed_words known, formed_operands xs inner]

theorem formed_exprs : ∀ es : List Expr, exprs true es → Formed.exprs words es
  | [], _ => rfl
  | e :: es, expressible => by
    simp only [exprs, Bool.and_eq_true] at expressible
    rw [Formed.exprs, formed_expr e expressible.1, formed_exprs es expressible.2]
    rfl

theorem formed_operand : ∀ x : Operand, operand true x → Formed.operand words x
  | .mk _ _ p _, expressible => by
    simp only [operand, Bool.and_eq_true] at expressible
    exact formed_primary p expressible.1.2

theorem formed_operands : ∀ xs : List Operand, operands true xs → Formed.operands words xs
  | [], _ => rfl
  | x :: xs, expressible => by
    simp only [operands, Bool.and_eq_true] at expressible
    rw [Formed.operands, formed_operand x expressible.1.1, formed_operands xs expressible.2]
    rfl

theorem formed_primary : ∀ p : Primary, primary true p → Formed.primary words p
  | .read _ _, expressible => expressible
  | .ref _ _ ts, expressible => by
    simp only [primary, Bool.and_eq_true] at expressible
    exact formed_tails ts expressible.2
  | .literal _ l, expressible => formed_literal l expressible
  | .paren _ inner, expressible => formed_expr inner expressible

theorem formed_tail : ∀ t : Tail, tail true t → Formed.tail words t
  | .index _ _, _ | .field _ _, _ => rfl
  | .subscript _ key, expressible => formed_expr key expressible
  | .call _ arguments, expressible => formed_exprs arguments expressible

theorem formed_tails : ∀ ts : List Tail, tails true ts → Formed.tails words ts
  | [], _ => rfl
  | t :: ts, expressible => by
    simp only [tails, Bool.and_eq_true] at expressible
    rw [Formed.tails, formed_tail t expressible.1, formed_tails ts expressible.2]
    rfl

theorem formed_literal : ∀ l : Literal, literal true l → Formed.literal words l
  | .missing, expressible => by cases expressible
  | .integer _ _, _ | .real _ _, _ | .boolean _ _, _ | .string _ _, _ | .empty _, _ => rfl
  | .array _ es, expressible => formed_exprs es expressible
  | .tuple _ es, expressible => formed_elements es expressible
  | .function _ _ b, expressible => by
    simp only [literal, Bool.and_eq_true] at expressible
    exact formed_body b expressible.2
  | .lambda _ _ result, expressible => by
    simp only [literal, Bool.and_eq_true] at expressible
    exact formed_expr result expressible.2

theorem formed_element : ∀ e : Element, element true e → Formed.element words e
  | .mk _ _ value, expressible => by
    simp only [element, Bool.and_eq_true] at expressible
    exact formed_expr value expressible.2

theorem formed_elements : ∀ es : List Element, elements true es → Formed.elements words es
  | [], _ => rfl
  | e :: es, expressible => by
    simp only [elements, Bool.and_eq_true] at expressible
    rw [Formed.elements, formed_element e expressible.1, formed_elements es expressible.2]
    rfl

theorem formed_statement : ∀ s : Statement, statement true s → Formed.statement words s
  | .declare _ _ initial, expressible => by
    simp only [statement, Bool.and_eq_true] at expressible
    exact formed_optional (formed_expr initial) expressible.2
  | .assign _ (.ref _ _ ts) none value, expressible => by
    simp only [statement, Bool.and_eq_true] at expressible
    obtain ⟨⟨⟨-, tails⟩, -⟩, absent⟩ := expressible
    simp [Formed.statement, Formed.primary, formed_tails ts tails, absent]
  | .assign _ (.ref _ _ ts) (some op) value, expressible => by
    simp only [statement, Bool.and_eq_true] at expressible
    obtain ⟨⟨⟨-, tails⟩, known⟩, assigned⟩ := expressible
    simp [Formed.statement, Formed.primary, Formed.word, formed_tails ts tails, known,
      formed_expr value assigned]
  | .assign _ (.read _ _) _ _, expressible | .assign _ (.literal _ _) _ _, expressible
  | .assign _ (.paren _ _) _ _, expressible => by cases expressible
  | .branch _ condition yes no, expressible => by
    simp only [statement, Bool.and_eq_true, Bool.or_eq_true] at expressible
    obtain ⟨⟨asked, first⟩, other⟩ := expressible
    have second : Formed.body words no := by
      rcases other with absent | other
      · cases no with
        | missing => rfl
        | mk _ _ _ => cases absent
      · exact formed_body no other
    simp [Formed.statement, formed_expr condition asked, formed_body yes first, second]
  | .forLoop _ _ low high b, expressible => by
    simp only [statement, Bool.and_eq_true] at expressible
    obtain ⟨⟨⟨-, first⟩, last⟩, inner⟩ := expressible
    simp [Formed.statement, formed_expr low first, formed_expr high last, formed_body b inner]
  | .whileLoop _ condition b, expressible => by
    simp only [statement, Bool.and_eq_true] at expressible
    simp [Formed.statement, formed_expr condition expressible.1, formed_body b expressible.2]
  | .print _ arguments, expressible => by
    simp only [statement, Bool.and_eq_true] at expressible
    exact formed_exprs arguments expressible.2
  | .ret _ value, expressible => formed_optional (formed_expr value) expressible
  | .brk _, _ | .cont _, _ => rfl
  | .block _, expressible => by cases expressible

theorem formed_statements : ∀ ss : List Statement, statements true ss → Formed.statements words ss
  | [], _ => rfl
  | s :: ss, expressible => by
    simp only [statements, Bool.and_eq_true] at expressible
    rw [Formed.statements, formed_statement s expressible.1, formed_statements ss expressible.2]
    rfl

theorem formed_body : ∀ b : Body, body true b → Formed.body words b
  | .missing, expressible => by cases expressible
  | .mk _ ss _, expressible => formed_statements ss expressible

end

end Expressible

/-- A tree that a source can spell is formed, and has no unknown words. -/
theorem Program.isFormed_of_expressible {words : Bool} {p : Program}
    (expressible : p.expressible true) : p.isFormed words :=
  Expressible.formed_body p.body expressible

end CellScript
