import CellScript.Proofs.Optimize.Constant

/-! A walk with sound rules keeps what is known of a tree: the constants of its expressions, the
statements that do nothing and those that leave. -/
namespace CellScript.Optimize

variable {assoc : Associativity} {r : Rules}

theorem Revised.value_ofOption {α : Type} (old : α) (new : Option α) :
    (Revised.ofOption old new).value = new.getD old := by
  cases new <;> rfl

namespace Walk

theorem expr_mk (r : Rules) (span : Span) (xs : List Operand) (ops : List (Word BinaryOp)) :
    (expr r (.mk span xs ops)).value =
      (r.expr (.mk span (operands r xs).value ops)).getD (.mk span (operands r xs).value ops) := by
  simp only [expr]
  exact Revised.value_ofOption _ _

theorem primary_paren (r : Rules) (span : Span) (inner : Expr) :
    (primary r (.paren span inner)).value =
      (r.paren (.paren span (expr r inner).value)).getD (.paren span (expr r inner).value) := by
  simp only [primary]
  exact Revised.value_ofOption _ _

theorem body_mk (r : Rules) (span : Span) (ss : List Statement) (cleared : Bool) :
    (body r (.mk span ss cleared)).value =
      (r.body (.mk span (statements r ss).value cleared)).getD
        (.mk span (statements r ss).value cleared) := by
  simp only [body]
  exact Revised.value_ofOption _ _

theorem operands_value (r : Rules) (xs : List Operand) :
    (operands r xs).value = xs.map fun x => (operand r x).value := by
  induction xs with
  | nil => rfl
  | cons x xs ih =>
    rw [List.map_cons, ← ih]
    rfl

theorem exprs_value (r : Rules) (es : List Expr) :
    (exprs r es).value = es.map fun e => (expr r e).value := by
  induction es with
  | nil => rfl
  | cons e es ih =>
    rw [List.map_cons, ← ih]
    rfl

theorem tails_value (r : Rules) (ts : List Tail) :
    (tails r ts).value = ts.map fun t => (tail r t).value := by
  induction ts with
  | nil => rfl
  | cons t ts ih =>
    rw [List.map_cons, ← ih]
    rfl

theorem elements_value (r : Rules) (es : List Element) :
    (elements r es).value = es.map fun e => (element r e).value := by
  induction es with
  | nil => rfl
  | cons e es ih =>
    rw [List.map_cons, ← ih]
    rfl

end Walk

theorem scalarValue?_walk (r : Rules) (l : Literal) :
    scalarValue? (Walk.literal r l).value = scalarValue? l := by
  cases l <;> rfl

mutual

theorem exprConstant?_walk (sound : r.Sound assoc) :
    ∀ e, exprConstant? assoc (Walk.expr r e).value = exprConstant? assoc e
  | .missing => rfl
  | .mk span xs ops => by
    have parts : exprConstant? assoc (.mk span (Walk.operands r xs).value ops) =
        exprConstant? assoc (.mk span xs ops) := by
      match xs with
      | [] => rfl
      | x :: xs =>
        have first := operandConstant?_walk sound x
        have rest := operandsConstant?_walk sound xs
        change exprConstant? assoc
          (.mk span ((Walk.operand r x).value :: (Walk.operands r xs).value) ops) = _
        simp only [exprConstant?, first, rest]
    rw [Walk.expr_mk]
    cases ruled : r.expr (.mk span (Walk.operands r xs).value ops) with
    | none => exact parts
    | some e =>
      obtain ⟨l, v, rfl, value, known⟩ := sound.expr _ _ ruled
      rw [Option.getD_some, exprConstant?_plain, value, ← parts, known]

theorem operandsConstant?_walk (sound : r.Sound assoc) :
    ∀ xs, operandsConstant? assoc (Walk.operands r xs).value = operandsConstant? assoc xs
  | [] => rfl
  | x :: xs => by
    have first := operandConstant?_walk sound x
    have rest := operandsConstant?_walk sound xs
    change operandsConstant? assoc ((Walk.operand r x).value :: (Walk.operands r xs).value) = _
    simp only [operandsConstant?, first, rest]

theorem operandConstant?_walk (sound : r.Sound assoc) :
    ∀ x, operandConstant? assoc (Walk.operand r x).value = operandConstant? assoc x
  | .mk span op p test => by
    have inside := primaryConstant?_walk sound p
    change operandConstant? assoc (.mk span op (Walk.primary r p).value test) = _
    simp only [operandConstant?, inside]

theorem primaryConstant?_walk (sound : r.Sound assoc) :
    ∀ p, primaryConstant? assoc (Walk.primary r p).value = primaryConstant? assoc p
  | .read _ _ => rfl
  | .ref _ _ _ => rfl
  | .literal _ l => scalarValue?_walk r l
  | .paren span inner => by
    have inside := exprConstant?_walk sound inner
    rw [Walk.primary_paren]
    cases ruled : r.paren (.paren span (Walk.expr r inner).value) with
    | none => exact inside
    | some p =>
      obtain ⟨span', inner', l, v, same, rfl, value, known⟩ := sound.paren _ _ ruled
      cases same
      change scalarValue? l = exprConstant? assoc inner
      rw [value, ← inside, known]

end

theorem leaves_walk (r : Rules) (s : Statement) :
    leaves (Walk.statement r s).value = leaves s := by
  cases s <;> rfl

theorem Pruned.idleAll_eq {ss ts : List Statement} (pruned : Pruned assoc ss ts) :
    idleAll assoc ts = idleAll assoc ss := by
  induction pruned with
  | nil => rfl
  | keep s _ ih => simp only [idleAll, ih]
  | drop idles _ ih => rw [ih, idleAll, idles, Bool.true_and]
  | take constant _ ih => rw [idleAll, idleAll, ih, idle_branch constant, idle]
  | leave leaving ss =>
    simp only [idleAll, idle_eq_false_of_leaves leaving, Bool.false_and]

mutual

theorem idle_walk (sound : r.Sound assoc) :
    ∀ s, idle assoc (Walk.statement r s).value = idle assoc s
  | .branch span condition yes no => by
    have known := exprConstant?_walk sound condition
    have here := idleBody_walk sound yes
    have there := idleBody_walk sound no
    change idle assoc (.branch span (Walk.expr r condition).value (Walk.body r yes).value
      (Walk.body r no).value) = _
    simp only [idle, known, here, there]
  | .whileLoop span condition b => by
    have known := exprConstant?_walk sound condition
    change idle assoc (.whileLoop span (Walk.expr r condition).value (Walk.body r b).value) = _
    simp only [idle, known]
  | .block b => idleBody_walk sound b
  | .declare .. | .assign .. | .forLoop .. | .print .. | .ret .. | .brk _ | .cont _ => rfl

theorem idleAll_walk (sound : r.Sound assoc) :
    ∀ ss, idleAll assoc (Walk.statements r ss).value = idleAll assoc ss
  | [] => rfl
  | s :: ss => by
    have first := idle_walk sound s
    have rest := idleAll_walk sound ss
    change idleAll assoc ((Walk.statement r s).value :: (Walk.statements r ss).value) = _
    simp only [idleAll, first, rest]

theorem idleBody_walk (sound : r.Sound assoc) :
    ∀ b, idleBody assoc (Walk.body r b).value = idleBody assoc b
  | .missing => rfl
  | .mk span ss cleared => by
    have parts := idleAll_walk sound ss
    rw [Walk.body_mk]
    cases ruled : r.body (.mk span (Walk.statements r ss).value cleared) with
    | none => exact parts
    | some b =>
      obtain ⟨span', ss', ts, c, c', same, rfl, pruned⟩ := sound.body _ _ ruled
      cases same
      exact pruned.idleAll_eq.trans parts

end

end CellScript.Optimize
