import CellScript.Proofs.Optimize.Invariance
import CellScript.Proofs.Tree.Formed

/-! Passes keep the shape that evaluation counts on. Folding puts a literal in the place of an
expression, and what pruning leaves of a body was in it before. -/
namespace CellScript.Optimize

variable {assoc : Associativity} {words : Bool} {r : Rules}

theorem formed_scalar {l : Literal} {v : Value} (scalar : scalarValue? l = some v) :
    Formed.literal words l := by
  cases l with
  | integer | real | boolean | string | empty => rfl
  | missing | array | tuple | function | lambda => cases scalar

theorem Pruned.formed {ss ts : List Statement} (pruned : Pruned assoc ss ts)
    (formed : Formed.statements words ss) : Formed.statements words ts := by
  induction pruned with
  | nil => rfl
  | keep s _ ih =>
    simp only [Formed.statements, Bool.and_eq_true] at formed ⊢
    exact ⟨formed.1, ih formed.2⟩
  | drop _ _ ih =>
    simp only [Formed.statements, Bool.and_eq_true] at formed
    exact ih formed.2
  | @take _ _ _ _ _ _ b _ _ ih =>
    simp only [Formed.statements, Formed.statement, Bool.and_eq_true] at formed ⊢
    obtain ⟨⟨⟨-, yes⟩, no⟩, rest⟩ := formed
    cases b with
    | true => exact ⟨yes, ih rest⟩
    | false => exact ⟨no, ih rest⟩
  | leave _ _ =>
    simp only [Formed.statements, Bool.and_eq_true] at formed ⊢
    exact ⟨formed.1, trivial⟩

namespace Walk

theorem formed_ruled_expr (sound : r.Sound assoc) {e : Expr} (formed : Formed.expr words e) :
    Formed.expr words ((r.expr e).getD e) := by
  cases ruled : r.expr e with
  | none => exact formed
  | some e' =>
    obtain ⟨l, v, rfl, scalar, -⟩ := sound.expr _ _ ruled
    simp [Formed.expr, Formed.operands, Formed.operand, Formed.primary, formed_scalar scalar]

theorem formed_optional {e : Expr}
    (walked : Formed.expr words e → Formed.expr words (expr r e).value)
    (formed : e.isMissing || Formed.expr words e) :
    (expr r e).value.isMissing || Formed.expr words (expr r e).value := by
  cases e with
  | missing => rfl
  | mk span xs ops =>
    rw [Bool.or_eq_true]
    exact .inr (walked formed)

mutual

theorem formed_expr (sound : r.Sound assoc) :
    ∀ e, Formed.expr words e → Formed.expr words (expr r e).value
  | .missing, formed => by cases formed
  | .mk span xs ops, formed => by
    simp only [Formed.expr, Bool.and_eq_true, beq_iff_eq] at formed
    have inner := formed_operands sound xs formed.2
    rw [expr_mk]
    apply formed_ruled_expr sound
    simp only [Formed.expr, Bool.and_eq_true, beq_iff_eq]
    refine ⟨⟨?_, formed.1.2⟩, inner⟩
    rw [operands_value, List.length_map, formed.1.1]

theorem formed_exprs (sound : r.Sound assoc) :
    ∀ es, Formed.exprs words es → Formed.exprs words (exprs r es).value
  | [], _ => rfl
  | e :: es, formed => by
    simp only [Formed.exprs, Bool.and_eq_true] at formed
    change (Formed.expr words (expr r e).value && Formed.exprs words (exprs r es).value) = true
    rw [formed_expr sound e formed.1, formed_exprs sound es formed.2, Bool.and_self]

theorem formed_operand (sound : r.Sound assoc) :
    ∀ x, Formed.operand words x → Formed.operand words (operand r x).value
  | .mk _ _ p _, formed => formed_primary sound p formed

theorem formed_operands (sound : r.Sound assoc) :
    ∀ xs, Formed.operands words xs → Formed.operands words (operands r xs).value
  | [], _ => rfl
  | x :: xs, formed => by
    simp only [Formed.operands, Bool.and_eq_true] at formed
    change (Formed.operand words (operand r x).value &&
      Formed.operands words (operands r xs).value) = true
    rw [formed_operand sound x formed.1, formed_operands sound xs formed.2, Bool.and_self]

theorem formed_primary (sound : r.Sound assoc) :
    ∀ p, Formed.primary words p → Formed.primary words (primary r p).value
  | .read _ _, formed => formed
  | .ref _ _ ts, formed => formed_tails sound ts formed
  | .literal _ l, formed => formed_literal sound l formed
  | .paren span inner, formed => by
    have walked := formed_expr sound inner formed
    rw [primary_paren]
    cases ruled : r.paren (.paren span (expr r inner).value) with
    | none => exact walked
    | some p =>
      obtain ⟨_, _, l, v, -, rfl, scalar, -⟩ := sound.paren _ _ ruled
      exact formed_scalar scalar

theorem formed_tail (sound : r.Sound assoc) :
    ∀ t, Formed.tail words t → Formed.tail words (tail r t).value
  | .index _ _, _ | .field _ _, _ => rfl
  | .subscript _ key, formed => formed_expr sound key formed
  | .call _ arguments, formed => formed_exprs sound arguments formed

theorem formed_tails (sound : r.Sound assoc) :
    ∀ ts, Formed.tails words ts → Formed.tails words (tails r ts).value
  | [], _ => rfl
  | t :: ts, formed => by
    simp only [Formed.tails, Bool.and_eq_true] at formed
    change (Formed.tail words (tail r t).value && Formed.tails words (tails r ts).value) = true
    rw [formed_tail sound t formed.1, formed_tails sound ts formed.2, Bool.and_self]

theorem formed_literal (sound : r.Sound assoc) :
    ∀ l, Formed.literal words l → Formed.literal words (literal r l).value
  | .missing, formed => by cases formed
  | .integer _ _, _ | .real _ _, _ | .boolean _ _, _ | .string _ _, _ | .empty _, _ => rfl
  | .array _ es, formed => formed_exprs sound es formed
  | .tuple _ es, formed => formed_elements sound es formed
  | .function _ _ b, formed => formed_body sound b formed
  | .lambda _ _ result, formed => formed_expr sound result formed

theorem formed_element (sound : r.Sound assoc) :
    ∀ e, Formed.element words e → Formed.element words (element r e).value
  | .mk _ _ value, formed => formed_expr sound value formed

theorem formed_elements (sound : r.Sound assoc) :
    ∀ es, Formed.elements words es → Formed.elements words (elements r es).value
  | [], _ => rfl
  | e :: es, formed => by
    simp only [Formed.elements, Bool.and_eq_true] at formed
    change (Formed.element words (element r e).value &&
      Formed.elements words (elements r es).value) = true
    rw [formed_element sound e formed.1, formed_elements sound es formed.2, Bool.and_self]

theorem formed_statement (sound : r.Sound assoc) :
    ∀ s, Formed.statement words s → Formed.statement words (statement r s).value
  | .declare _ _ initial, formed => formed_optional (formed_expr sound initial) formed
  | .assign _ target op value, formed => by
    simp only [Formed.statement, Bool.and_eq_true] at formed
    change (Formed.primary words (primary r target).value && op.all (Formed.word words) &&
      ((expr r value).value.isMissing || Formed.expr words (expr r value).value)) = true
    rw [formed_primary sound target formed.1.1, formed.1.2,
      formed_optional (formed_expr sound value) formed.2, Bool.and_self, Bool.and_self]
  | .branch _ condition yes no, formed => by
    simp only [Formed.statement, Bool.and_eq_true] at formed
    change (Formed.expr words (expr r condition).value && Formed.body words (body r yes).value &&
      Formed.body words (body r no).value) = true
    rw [formed_expr sound condition formed.1.1, formed_body sound yes formed.1.2,
      formed_body sound no formed.2, Bool.and_self, Bool.and_self]
  | .forLoop _ _ low high b, formed => by
    simp only [Formed.statement, Bool.and_eq_true] at formed
    change (Formed.expr words (expr r low).value && Formed.expr words (expr r high).value &&
      Formed.body words (body r b).value) = true
    rw [formed_expr sound low formed.1.1, formed_expr sound high formed.1.2,
      formed_body sound b formed.2, Bool.and_self, Bool.and_self]
  | .whileLoop _ condition b, formed => by
    simp only [Formed.statement, Bool.and_eq_true] at formed
    change (Formed.expr words (expr r condition).value &&
      Formed.body words (body r b).value) = true
    rw [formed_expr sound condition formed.1, formed_body sound b formed.2, Bool.and_self]
  | .print _ arguments, formed => formed_exprs sound arguments formed
  | .ret _ value, formed => formed_optional (formed_expr sound value) formed
  | .brk _, _ | .cont _, _ => rfl
  | .block b, formed => formed_body sound b formed

theorem formed_statements (sound : r.Sound assoc) :
    ∀ ss, Formed.statements words ss → Formed.statements words (statements r ss).value
  | [], _ => rfl
  | s :: ss, formed => by
    simp only [Formed.statements, Bool.and_eq_true] at formed
    change (Formed.statement words (statement r s).value &&
      Formed.statements words (statements r ss).value) = true
    rw [formed_statement sound s formed.1, formed_statements sound ss formed.2, Bool.and_self]

theorem formed_body (sound : r.Sound assoc) :
    ∀ b, Formed.body words b → Formed.body words (body r b).value
  | .missing, _ => rfl
  | .mk span ss cleared, formed => by
    have inner := formed_statements sound ss formed
    rw [body_mk]
    cases ruled : r.body (.mk span (statements r ss).value cleared) with
    | none => exact inner
    | some b =>
      obtain ⟨_, _, _, _, _, same, rfl, pruned⟩ := sound.body _ _ ruled
      cases same
      exact pruned.formed inner

end

end Walk

variable {p : Program}

theorem formed_round (assoc : Associativity) (passes : List Pass) (formed : p.isFormed words) :
    (round assoc passes p).value.isFormed words := by
  induction passes generalizing p with
  | nil => exact formed
  | cons pass passes ih => exact ih (Walk.formed_body (pass.rules_sound assoc) p.body formed)

/-- Rounds of passes leave a program formed. -/
theorem formed_rounds (assoc : Associativity) (passes : List Pass) (bound : Nat)
    (formed : p.isFormed words) : (rounds assoc passes bound p).2.isFormed words := by
  induction bound generalizing p with
  | zero => exact formed
  | succ bound ih =>
    have once := formed_round assoc passes formed
    simp only [rounds]
    split
    · exact ih once
    · exact once

end CellScript.Optimize
