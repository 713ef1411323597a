import CellScript.Optimize

/-! What can be known of a tree before it runs: the value of an expression over literals, and
statements that do nothing. Parentheses and constant conditions are seen through, so no pass
changes what is known. -/
namespace CellScript.Optimize

mutual

/-- The value that an expression has wherever it is evaluated. -/
def exprConstant? (assoc : Associativity) : Expr → Option Value
  | .missing => none
  | .mk _ [] _ => none
  | .mk _ (x :: xs) ops => do
    let first ← operandConstant? assoc x
    let rest ← operandsConstant? assoc xs
    if rest.length ≠ ops.length then none
    else match Operators.reduce assoc first (ops.zip rest) .empty with
    | .ok (v, _) => some v
    | .error _ => none

def operandsConstant? (assoc : Associativity) : List Operand → Option (List Value)
  | [] => some []
  | x :: xs => do return (← operandConstant? assoc x) :: (← operandsConstant? assoc xs)

def operandConstant? (assoc : Associativity) : Operand → Option Value
  | .mk _ op p test => do
    match Operators.operand op test (← primaryConstant? assoc p) with
    | .ok v => some v
    | .error _ => none

def primaryConstant? (assoc : Associativity) : Primary → Option Value
  | .read _ _ => none
  | .ref _ _ _ => none
  | .literal _ l => scalarValue? l
  | .paren _ inner => exprConstant? assoc inner

end

mutual

/-- Whether a statement has no effect at all. -/
def idle (assoc : Associativity) : Statement → Bool
  | .branch _ condition yes no =>
    match exprConstant? assoc condition with
    | some (.bool true) => idleBody assoc yes
    | some (.bool false) => idleBody assoc no
    | _ => false
  | .whileLoop _ condition _ =>
    match exprConstant? assoc condition with
    | some (.bool false) => true
    | _ => false
  | .block b => idleBody assoc b
  | _ => false

def idleAll (assoc : Associativity) : List Statement → Bool
  | [] => true
  | s :: ss => idle assoc s && idleAll assoc ss

def idleBody (assoc : Associativity) : Body → Bool
  | .missing => true
  | .mk _ ss _ => idleAll assoc ss

end

variable {assoc : Associativity}

theorem idle_branch {span : Span} {condition : Expr} {yes no : Body} {b : Bool}
    (constant : exprConstant? assoc condition = some (.bool b)) :
    idle assoc (.branch span condition yes no) = idleBody assoc (if b then yes else no) := by
  cases b <;> simp only [idle, constant] <;> rfl

theorem idle_eq_false_of_leaves {s : Statement} (leaving : leaves s = true) :
    idle assoc s = false := by
  cases s with
  | ret _ _ | brk _ | cont _ => rfl
  | declare _ _ _ | assign _ _ _ _ | branch _ _ _ _ | forLoop _ _ _ _ _ | whileLoop _ _ _
  | print _ _ | block _ => cases leaving

/-! ### Passes keep constants -/

theorem operandConstant?_of_value {x : Operand} {v : Value} (known : operandValue? x = some v) :
    operandConstant? assoc x = some v := by
  obtain ⟨span, op, p, test⟩ := x
  cases p with
  | literal _ l => exact known
  | read _ _ | ref _ _ _ | paren _ _ => cases known

theorem operandsConstant?_of_values {xs : List Operand} {vs : List Value}
    (known : xs.mapM operandValue? = some vs) : operandsConstant? assoc xs = some vs := by
  induction xs generalizing vs with
  | nil => exact known
  | cons x xs ih =>
    simp only [List.mapM_cons, Option.bind_eq_bind, Option.bind_eq_some_iff] at known
    obtain ⟨v, first, ws, rest, same⟩ := known
    simp only [operandsConstant?, operandConstant?_of_value first, ih rest]
    exact same

theorem exprConstant?_of_value {e : Expr} {v : Value} (known : constantValue? assoc e = some v) :
    exprConstant? assoc e = some v := by
  match e with
  | .missing => cases known
  | .mk _ [] _ => cases known
  | .mk _ (x :: xs) ops =>
    simp only [constantValue?, Option.bind_eq_bind, Option.bind_eq_some_iff] at known
    obtain ⟨first, here, rest, there, reduced⟩ := known
    simp only [exprConstant?, operandConstant?_of_value here, operandsConstant?_of_values there]
    exact reduced

theorem exprConstant?_plain (span span' span'' : Span) (l : Literal) :
    exprConstant? assoc (.mk span [.mk span' none (.literal span'' l) none] []) = scalarValue? l := by
  simp only [exprConstant?, operandConstant?, primaryConstant?, operandsConstant?]
  cases scalarValue? l <;> rfl

theorem exprConstant?_of_plainLiteral {e : Expr} {l : Literal} (plain : plainLiteral? e = some l) :
    exprConstant? assoc e = scalarValue? l := by
  unfold plainLiteral? at plain
  split at plain
  · cases plain
    exact exprConstant?_plain _ _ _ _
  · cases plain

theorem scalarValue?_literalOf {span : Span} {v : Value} {l : Literal}
    (spelled : literalOf? span v = some l) : scalarValue? l = some v := by
  cases v with
  | real x =>
    simp only [literalOf?] at spelled
    split at spelled
    · cases spelled
      rfl
    · cases spelled
  | int _ | bool _ | string _ | empty =>
    cases spelled
    rfl
  | array _ | tuple _ | func _ => cases spelled

theorem foldExpr_shape {e e' : Expr} (folded : foldExpr assoc e = some e') :
    ∃ l v, e' = .mk e.span [.mk e.span none (.literal e.span l) none] [] ∧
      scalarValue? l = some v ∧ exprConstant? assoc e = some v := by
  unfold foldExpr at folded
  split at folded
  · cases folded
  · simp only [Option.bind_eq_bind, Option.bind_eq_some_iff] at folded
    obtain ⟨v, known, l, spelled, same⟩ := folded
    cases same
    exact ⟨l, v, rfl, scalarValue?_literalOf spelled, exprConstant?_of_value known⟩

theorem unwrap_shape {p p' : Primary} (unwrapped : unwrap p = some p') :
    ∃ span inner l v, p = .paren span inner ∧ p' = .literal span l ∧ scalarValue? l = some v ∧
      exprConstant? assoc inner = some v := by
  cases p with
  | paren span inner =>
    simp only [unwrap, Option.bind_eq_bind, Option.bind_eq_some_iff] at unwrapped
    obtain ⟨l, plain, scalar⟩ := unwrapped
    split at scalar
    · cases scalar
      have known : ∃ v, scalarValue? l = some v := by
        cases l <;> simp_all [Literal.isScalar, scalarValue?]
      obtain ⟨v, value⟩ := known
      exact ⟨span, inner, l, v, rfl, rfl, value, (exprConstant?_of_plainLiteral plain).trans value⟩
    · cases scalar
  | read _ _ | ref _ _ _ | literal _ _ => cases unwrapped

/-! ### What the rules of a pass may do -/

/-- Statements left of others: idle ones are gone, branches with a constant condition gave way to
the body that runs, and nothing follows a statement that leaves. -/
inductive Pruned (assoc : Associativity) : List Statement → List Statement → Prop where
  | nil : Pruned assoc [] []
  | keep {ss ts} (s : Statement) (rest : Pruned assoc ss ts) : Pruned assoc (s :: ss) (s :: ts)
  | drop {s ss ts} (idles : idle assoc s = true) (rest : Pruned assoc ss ts) :
    Pruned assoc (s :: ss) ts
  | take {span condition yes no ss ts} {b : Bool}
      (constant : exprConstant? assoc condition = some (.bool b)) (rest : Pruned assoc ss ts) :
    Pruned assoc (.branch span condition yes no :: ss) (.block (if b then yes else no) :: ts)
  | leave {s} (leaving : leaves s = true) (ss : List Statement) : Pruned assoc (s :: ss) [s]

theorem Pruned.refl (ss : List Statement) : Pruned assoc ss ss := by
  induction ss with
  | nil => exact .nil
  | cons s ss ih => exact .keep s ih

/-- Rules that only fold constants, unwrap constants and prune bodies. -/
structure Rules.Sound (assoc : Associativity) (r : Rules) : Prop where
  expr (e e' : Expr) (ruled : r.expr e = some e') :
    ∃ l v, e' = .mk e.span [.mk e.span .none (.literal e.span l) .none] [] ∧
      scalarValue? l = some v ∧ exprConstant? assoc e = some v
  paren (p p' : Primary) (ruled : r.paren p = some p') :
    ∃ span inner l v, p = .paren span inner ∧ p' = .literal span l ∧ scalarValue? l = some v ∧
      exprConstant? assoc inner = some v
  body (b b' : Body) (ruled : r.body b = some b') :
    ∃ span ss ts c c', b = .mk span ss c ∧ b' = .mk span ts c' ∧ Pruned assoc ss ts

theorem exprConstant?_of_literalCondition {e : Expr} {b : Bool}
    (known : literalCondition? e = some b) : exprConstant? assoc e = some (.bool b) := by
  unfold literalCondition? at known
  split at known
  · rename_i span c plain
    cases known
    exact exprConstant?_of_plainLiteral plain
  · cases known

theorem idleBody_of_isEmpty {b : Body} (empty : b.statements.isEmpty = true) :
    idleBody assoc b = true := by
  cases b with
  | missing => rfl
  | mk span ss c =>
    cases ss with
    | nil => rfl
    | cons s ss => cases empty

theorem Pruned.liveParts {ss ts : List Statement} (rest : Pruned assoc ss ts) (s : Statement) :
    Pruned assoc (s :: ss) ((liveParts s).getD [s] ++ ts) := by
  match s with
  | .branch span condition yes no =>
    cases known : literalCondition? condition with
    | none =>
      simp only [Optimize.liveParts, known]
      exact .keep _ rest
    | some b =>
      have constant : exprConstant? assoc condition = some (.bool b) :=
        exprConstant?_of_literalCondition known
      have taken : Pruned assoc (.branch span condition yes no :: ss)
          ((if (if b then yes else no).statements.isEmpty then []
            else [.block (if b then yes else no)]) ++ ts) := by
        by_cases empty : (if b then yes else no).statements.isEmpty = true
        · rw [if_pos empty]
          refine .drop ?_ rest
          rw [idle_branch constant]
          exact idleBody_of_isEmpty empty
        · rw [if_neg empty]
          exact .take constant rest
      simpa only [Optimize.liveParts, known, Option.map_some, Option.getD_some] using taken
  | .whileLoop span condition b =>
    simp only [Optimize.liveParts]
    split
    · rename_i known
      have constant : exprConstant? assoc condition = some (.bool false) :=
        exprConstant?_of_literalCondition known
      exact .drop (by simp only [idle, constant]) rest
    · exact .keep _ rest
  | .declare .. | .assign .. | .forLoop .. | .print .. | .ret .. | .brk _ | .cont _ | .block _ =>
    exact .keep _ rest

theorem pruned_liveParts (ss : List Statement) :
    Pruned assoc ss (ss.flatMap fun s => (liveParts s).getD [s]) := by
  induction ss with
  | nil => exact .nil
  | cons s ss ih =>
    rw [List.flatMap_cons]
    exact ih.liveParts s

theorem upToLeaving_sublist (ss : List Statement) : (upToLeaving ss).Sublist ss := by
  induction ss with
  | nil => exact .refl _
  | cons s ss ih =>
    unfold upToLeaving
    split
    · exact (List.nil_sublist ss).cons_cons s
    · exact ih.cons_cons s

theorem pruned_upToLeaving (ss : List Statement) : Pruned assoc ss (upToLeaving ss) := by
  induction ss with
  | nil => exact .nil
  | cons s ss ih =>
    unfold upToLeaving
    split
    · rename_i leaving
      exact .leave leaving ss
    · exact .keep s ih

theorem Pass.rules_sound (assoc : Associativity) (pass : Pass) : (pass.rules assoc).Sound assoc := by
  cases pass with
  | constantFolding =>
    exact {
      expr := fun _ _ => foldExpr_shape
      paren := fun _ _ => unwrap_shape
      body := by rintro _ _ ⟨⟩ }
  | deadBranches =>
    refine ⟨by rintro _ _ ⟨⟩, by rintro _ _ ⟨⟩, ?_⟩
    rintro (_ | ⟨span, ss, c⟩) b' ruled
    · cases ruled
    · simp only [Pass.rules, dropDeadBranches] at ruled
      split at ruled
      · cases ruled
        exact ⟨span, ss, _, c, _, rfl, rfl, pruned_liveParts ss⟩
      · cases ruled
  | unreachable =>
    refine ⟨by rintro _ _ ⟨⟩, by rintro _ _ ⟨⟩, ?_⟩
    rintro (_ | ⟨span, ss, c⟩) b' ruled
    · cases ruled
    · simp only [Pass.rules, dropUnreachable] at ruled
      split at ruled
      · cases ruled
        exact ⟨span, ss, _, c, _, rfl, rfl, pruned_upToLeaving ss⟩
      · cases ruled

end CellScript.Optimize
