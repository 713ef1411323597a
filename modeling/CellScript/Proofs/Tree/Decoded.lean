import CellScript.Proofs.Tree.Nodes

/-! What is decoded, from whatever JSON, is a regular tree with finite reals and no removed statements. -/
namespace CellScript.Decoding

/-- Whatever the text, so long as its numbers denote reals. -/
abbrev Numeric (j : Json) : Prop := j.clean fun _ => true

section Parts

variable {j : Json}

theorem numeric_get (name : String) (numeric : Numeric j) : Numeric (get name j) := by
  cases j with
  | object members =>
    have clean : Numeric .null := rfl
    replace numeric : Json.cleanMembers (fun _ => true) members := numeric
    unfold get Json.get
    dsimp only
    generalize Json.null = found at clean ⊢
    induction members generalizing found with
    | nil => exact clean
    | cons member members ih =>
      obtain ⟨n, v⟩ := member
      simp only [Json.cleanMembers, Bool.true_and, Bool.and_eq_true] at numeric
      refine ih numeric.2 _ ?_
      dsimp only
      split
      · exact numeric.1
      · exact clean
  | _ => rfl

theorem numeric_items (numeric : Numeric j) : ∀ i ∈ j.itemsOrNone, Numeric i := by
  cases j with
  | array items =>
    replace numeric : Json.cleanItems (fun _ => true) items := numeric
    rw [Json.cleanItems_eq, List.all_eq_true] at numeric
    exact numeric
  | _ => nofun

theorem regular_coordinate (j : Json) : Regular.coordinate (coordinate j) := by
  have fits (n : Int64) : Regular.coordinate n.toInt := by simp [Regular.coordinate]
  unfold coordinate
  split
  · split
    · exact fits _
    · exact fits _
    · decide
  · decide

theorem regular_position (j : Json) :
    Regular.coordinate (position j).line ∧ Regular.coordinate (position j).column := by
  unfold position
  split
  · exact ⟨regular_coordinate _, regular_coordinate _⟩
  · decide

@[simp] theorem regular_spanOf (j : Json) : Regular.span (spanOf j) := by
  unfold spanOf
  split
  · simp [Regular.span, regular_position]
  · decide

@[simp] theorem regular_ofOptional {α : Type} [Vocabulary α] (t : Text) :
    Regular.word (Word.ofOptional t : Option (Word α)) := by
  unfold Word.ofOptional
  split
  · rfl
  next some => simpa [Regular.word] using some

end Parts

/-- Whatever the step gives, if anything, is as described. -/
def Only {α : Type} (P : α → Prop) (step : Decode α) : Prop := ∀ a, step = .ok a → P a

namespace Only

variable {α β : Type} {P : β → Prop} {Q : α → Prop} {a : α} {b : β}

theorem pure (holds : P b) : Only P (Pure.pure b) := by
  rintro _ ⟨⟩
  exact holds

theorem refuse (path : Text) (cause : Cause) : Only P (Decoding.refuse path cause) := nofun

theorem bind {step : Decode α} {next : α → Decode β} (first : Only Q step)
    (rest : ∀ a, Q a → Only P (next a)) : Only P (step >>= next) := by
  intro b read
  cases given : step with
  | error e => simp [given, Bind.bind, Except.bind] at read
  | ok a =>
    rw [given] at read
    exact rest a (first a given) b read

theorem refuse_bind (path : Text) (cause : Cause) (next : α → Decode β) :
    Only P (Decoding.refuse path cause >>= next) := nofun

theorem ite {c : Prop} [Decidable c] {yes no : Decode β} (holds : c → Only P yes)
    (fails : ¬ c → Only P no) : Only P (if c then yes else no) := by
  split
  next held => exact holds held
  next other => exact fails other

end Only

section Settled

/-- Regular, with finite reals, and its flags lowered. -/
structure Settled {α : Type} (regular : α → Bool) (reals : α → List Float) (restamp : α → α) (x : α) :
    Prop where
  regular : regular x
  finite : ∀ r ∈ reals x, Real.isFinite r
  same : restamp x = x

namespace Settled

abbrev expr := Settled Regular.expr Reals.expr (Restamp.expr id)

abbrev operand := Settled Regular.operand Reals.operand (Restamp.operand id)

abbrev primary := Settled Regular.primary Reals.primary (Restamp.primary id)

abbrev tail := Settled Regular.tail Reals.tail (Restamp.tail id)

abbrev literal := Settled Regular.literal Reals.literal (Restamp.literal id)

abbrev element := Settled Regular.element Reals.element (Restamp.element id)

abbrev statement := Settled Regular.statement Reals.statement (Restamp.statement id)

abbrev body := Settled Regular.body Reals.body (Restamp.body id)

/-- Settled, and there. -/
abbrev required := Settled (fun e => !e.isMissing && Regular.expr e) Reals.expr (Restamp.expr id)

abbrev standing := Settled (fun b => !b.isMissing && Regular.body b) Reals.body (Restamp.body id)

/-- A list is settled if its items are. -/
theorem all {α : Type} {regular : α → Bool} {reals : α → List Float} {restamp : α → α}
    {regulars : List α → Bool} {lists : List α → List Float} {restamps : List α → List α}
    (nil : Settled regulars lists restamps [])
    (cons : ∀ x xs, regulars (x :: xs) = (regular x && regulars xs) ∧ lists (x :: xs) = reals x ++ lists xs ∧
      restamps (x :: xs) = restamp x :: restamps xs)
    {xs : List α} (items : ∀ x ∈ xs, Settled regular reals restamp x) :
    Settled regulars lists restamps xs := by
  induction xs with
  | nil => exact nil
  | cons x xs ih =>
    obtain ⟨first, others⟩ := List.forall_mem_cons.mp items
    have rest := ih others
    obtain ⟨regular, list, restamp⟩ := cons x xs
    refine ⟨?_, ?_, ?_⟩
    · rw [regular, first.regular, rest.regular]
      rfl
    · rw [list]
      exact List.forall_mem_append.mpr ⟨first.finite, rest.finite⟩
    · rw [restamp, first.same, rest.same]

theorem exprs {es : List Expr} (items : ∀ x ∈ es, required x) :
    Settled Regular.exprs Reals.exprs (Restamp.exprs id) es :=
  all ⟨rfl, by simp [Reals.exprs], rfl⟩ (fun _ _ => ⟨rfl, rfl, rfl⟩) items

theorem operands {xs : List Operand} (items : ∀ x ∈ xs, operand x) :
    Settled Regular.operands Reals.operands (Restamp.operands id) xs :=
  all ⟨rfl, by simp [Reals.operands], rfl⟩ (fun _ _ => ⟨rfl, rfl, rfl⟩) items

theorem tails {ts : List Tail} (items : ∀ x ∈ ts, tail x) :
    Settled Regular.tails Reals.tails (Restamp.tails id) ts :=
  all ⟨rfl, by simp [Reals.tails], rfl⟩ (fun _ _ => ⟨rfl, rfl, rfl⟩) items

theorem elements {es : List Element} (items : ∀ x ∈ es, element x) :
    Settled Regular.elements Reals.elements (Restamp.elements id) es :=
  all ⟨rfl, by simp [Reals.elements], rfl⟩ (fun _ _ => ⟨rfl, rfl, rfl⟩) items

theorem statements {ss : List Statement} (items : ∀ x ∈ ss, statement x) :
    Settled Regular.statements Reals.statements (Restamp.statements id) ss :=
  all ⟨rfl, by simp [Reals.statements], rfl⟩ (fun _ _ => ⟨rfl, rfl, rfl⟩) items

end Settled

theorem only_required (path : Text) {e : Expr} (settled : Settled.expr e) :
    Only Settled.required (required path e) :=
  .ite (fun _ => .refuse _ _) fun present =>
    .pure ⟨by simp [present, settled.regular], settled.finite, settled.same⟩

theorem only_standing (path : Text) (complaint : String) {b : Body} (settled : Settled.body b) :
    Only Settled.standing (if b.isMissing then refuse path (.lacks complaint) else pure b) :=
  .ite (fun _ => .refuse _ _) fun present =>
    .pure ⟨by simp [present, settled.regular], settled.finite, settled.same⟩

/-- The items of a member are settled one by one. -/
theorem only_each {α : Type} {P : α → Prop} {decode : Text → Json → Decode α} {path : Text} {name : String}
    {j : Json} (inner : ∀ path i, Numeric i → Only P (decode path i)) (numeric : Numeric j) :
    Only (fun xs => ∀ x ∈ xs, P x) (each decode path name j) := by
  have items := numeric_items (numeric_get name numeric)
  unfold each
  generalize (get name j).itemsOrNone = js at items
  generalize 0 = k
  induction js generalizing k with
  | nil => exact .pure (List.forall_mem_nil _)
  | cons i js ih =>
    obtain ⟨first, others⟩ := List.forall_mem_cons.mp items
    rw [List.zipIdx_cons, List.mapM_cons]
    exact .bind (inner _ i first) fun x holds => .bind (ih others _) fun xs rest =>
      .pure (List.forall_mem_cons.mpr ⟨holds, rest⟩)

theorem only_real {path : Text} {j : Json} (numeric : Numeric j) : Only (fun x => Real.isFinite x) (real path j) := by
  cases j with
  | number text =>
    simp only [Numeric, Json.clean, Bool.and_eq_true] at numeric
    obtain ⟨numeral, value⟩ := numeric
    obtain ⟨x, value⟩ := Option.isSome_iff_exists.mp value
    obtain ⟨negative, m, finite⟩ := Real.decode_numberBytes (Json.isNumeral_bytes numeral) value
    unfold real
    simp only [value]
    exact .pure (by simp [Real.isFinite, finite])
  | _ => exact .refuse _ _

end Settled

/-- What the decoders give within some steps is settled. -/
structure Settling (n : Nat) : Prop where
  expr : ∀ path j, Numeric j → Only Settled.expr (expr n path j)
  operand : ∀ path j, Numeric j → Only Settled.operand (operand n path j)
  primary : ∀ path j, Numeric j → Only Settled.primary (primary n path j)
  tail : ∀ path j, Numeric j → Only Settled.tail (tail n path j)
  requiredExpr : ∀ path j, Numeric j → Only Settled.required (requiredExpr n path j)
  literal : ∀ path j, Numeric j → Only Settled.literal (literal n path j)
  element : ∀ path j, Numeric j → Only Settled.element (element n path j)
  statement : ∀ path j, Numeric j → Only Settled.statement (statement n path j)
  body : ∀ path j, Numeric j → Only Settled.standing (body n path j)
  optionalBody : ∀ path j, Numeric j → Only Settled.body (optionalBody n path j)

section Steps

variable {n : Nat} {path : Text} {j : Json}

theorem only_expr (ih : ∀ m < n, Settling m) (numeric : Numeric j) : Only Settled.expr (expr n path j) := by
  unfold expr
  split
  next => exact .refuse _ _
  next n members =>
    refine .ite (fun _ => .refuse_bind _ _ _) fun _ => ?_
    refine .bind (only_each (ih n (Nat.lt_succ_self n)).operand numeric) fun xs inner => ?_
    refine .ite (fun _ => .refuse_bind _ _ _) fun count => .pure ?_
    have inner := Settled.operands inner
    refine ⟨?_, inner.finite, ?_⟩
    · simp only [Regular.expr, regular_spanOf, inner.regular, Bool.true_and, Bool.and_true, beq_iff_eq]
      exact Decidable.not_not.mp count
    · rw [Restamp.expr, inner.same]
      rfl
  next => exact .pure ⟨rfl, List.forall_mem_nil _, rfl⟩

theorem only_operand (ih : ∀ m < n, Settling m) (numeric : Numeric j) :
    Only Settled.operand (operand n path j) := by
  unfold operand
  split
  next => exact .refuse _ _
  next n members =>
    simp only
    split
    next parts found =>
      refine .bind ((ih n (Nat.lt_succ_self n)).primary _ _ (found ▸ numeric_get "primary" numeric))
        fun p inner => .pure ⟨?_, inner.finite, ?_⟩
      · simp [Regular.operand, inner.regular]
      · rw [Restamp.operand, inner.same]
        rfl
    next => exact .refuse _ _
  next => exact .refuse _ _

theorem only_primary (ih : ∀ m < n, Settling m) (numeric : Numeric j) :
    Only Settled.primary (primary n path j) := by
  unfold primary
  split
  next => exact .refuse _ _
  next n =>
    have ih := ih n (Nat.lt_succ_self n)
    simp only
    split
    next kind _ =>
      exact .pure ⟨by simp [Regular.primary, Word.isKnown], nofun, rfl⟩
    next =>
    refine .ite (fun _ => ?_) fun _ => .ite (fun _ => ?_) fun _ => .ite (fun _ => ?_) fun _ => .refuse _ _
    · refine .bind (only_each ih.tail numeric) fun ts inner => .pure ?_
      have inner := Settled.tails inner
      refine ⟨by simp [Regular.primary, inner.regular], inner.finite, ?_⟩
      rw [Restamp.primary, inner.same]
      rfl
    · split
      next parts found =>
        refine .bind (ih.literal _ _ (found ▸ numeric_get "literal" numeric)) fun l inner => .pure ?_
        refine ⟨by simp [Regular.primary, inner.regular], inner.finite, ?_⟩
        rw [Restamp.primary, inner.same]
        rfl
      next => exact .refuse _ _
    · refine .bind (ih.expr _ _ (numeric_get "inner" numeric)) fun e settled =>
        .bind (only_required _ settled) fun e inner => .pure ?_
      refine ⟨by simpa [Regular.primary] using inner.regular, inner.finite, ?_⟩
      rw [Restamp.primary, inner.same]
      rfl

theorem only_integer : Only (fun _ => True) (integer path j) := fun _ _ => trivial

theorem only_tail (ih : ∀ m < n, Settling m) (numeric : Numeric j) : Only Settled.tail (tail n path j) := by
  unfold tail
  split
  next => exact .refuse _ _
  next n members =>
    have ih := ih n (Nat.lt_succ_self n)
    refine .ite (fun _ => ?_) fun _ => .ite (fun _ => ?_) fun _ => .ite (fun _ => ?_) fun _ =>
      .ite (fun _ => ?_) fun _ => .refuse _ _
    · exact .bind only_integer fun i _ => .pure ⟨regular_spanOf _, List.forall_mem_nil _, rfl⟩
    · exact .pure ⟨regular_spanOf _, List.forall_mem_nil _, rfl⟩
    · refine .bind (ih.expr _ _ (numeric_get "subscript" numeric)) fun e settled =>
        .bind (only_required _ settled) fun e inner => .pure ?_
      refine ⟨by simpa [Regular.tail] using inner.regular, inner.finite, ?_⟩
      rw [Restamp.tail, inner.same]
      rfl
    · refine .bind (only_each ih.requiredExpr numeric) fun es inner => .pure ?_
      have inner := Settled.exprs inner
      refine ⟨by simp [Regular.tail, inner.regular], inner.finite, ?_⟩
      rw [Restamp.tail, inner.same]
      rfl
  next => exact .refuse _ _

theorem only_requiredExpr (ih : ∀ m < n, Settling m) (numeric : Numeric j) :
    Only Settled.required (requiredExpr n path j) := by
  unfold requiredExpr
  split
  next => exact .refuse _ _
  next n =>
    exact .bind ((ih n (Nat.lt_succ_self n)).expr _ _ numeric) fun e settled => only_required _ settled

theorem only_scalarLiteral (type : String) (numeric : Numeric j) :
    Only Settled.literal (scalarLiteral path j type) := by
  unfold scalarLiteral
  refine .ite (fun _ => .refuse _ _) fun _ => .ite (fun _ => ?_) fun _ => .ite (fun _ => ?_) fun _ =>
    .ite (fun _ => ?_) fun _ => ?_
  · exact .bind only_integer fun _ _ => .pure ⟨regular_spanOf _, List.forall_mem_nil _, rfl⟩
  · refine .bind (only_real (numeric_get "value" numeric)) fun x finite => .pure ⟨regular_spanOf _, ?_, rfl⟩
    simpa [Reals.literal] using finite
  · split
    · exact .pure ⟨regular_spanOf _, List.forall_mem_nil _, rfl⟩
    · exact .refuse _ _
  · split
    · exact .pure ⟨regular_spanOf _, List.forall_mem_nil _, rfl⟩
    · exact .refuse _ _

theorem only_literal (ih : ∀ m < n, Settling m) (numeric : Numeric j) :
    Only Settled.literal (literal n path j) := by
  unfold literal
  split
  next => exact .refuse _ _
  next n =>
    have ih := ih n (Nat.lt_succ_self n)
    simp only
    split
    next type _ => exact only_scalarLiteral type numeric
    next =>
    refine .ite (fun _ => ?_) fun _ => .ite (fun _ => ?_) fun _ => .ite (fun _ => ?_) fun _ =>
      .ite (fun _ => ?_) fun _ => .refuse _ _
    · exact .pure ⟨regular_spanOf _, List.forall_mem_nil _, rfl⟩
    · refine .bind (only_each ih.requiredExpr numeric) fun es inner => .pure ?_
      have inner := Settled.exprs inner
      refine ⟨by simp [Regular.literal, inner.regular], inner.finite, ?_⟩
      rw [Restamp.literal, inner.same]
      rfl
    · refine .bind (only_each ih.element numeric) fun es inner => .pure ?_
      have inner := Settled.elements inner
      refine ⟨by simp [Regular.literal, inner.regular], inner.finite, ?_⟩
      rw [Restamp.literal, inner.same]
      rfl
    · refine .bind (ih.optionalBody _ _ (numeric_get "body" numeric)) fun b statements =>
        .bind (ih.expr _ _ (numeric_get "exprBody" numeric)) fun e result => ?_
      split
      next present _ =>
        refine .pure ⟨by simp [Regular.literal, present, statements.regular], statements.finite, ?_⟩
        rw [Restamp.literal, statements.same]
        rfl
      next present =>
        refine .pure ⟨by simp [Regular.literal, present, result.regular], result.finite, ?_⟩
        rw [Restamp.literal, result.same]
        rfl
      next => exact .refuse _ _

theorem only_element (ih : ∀ m < n, Settling m) (numeric : Numeric j) :
    Only Settled.element (element n path j) := by
  unfold element
  split
  next => exact .refuse _ _
  next n members =>
    refine .bind ((ih n (Nat.lt_succ_self n)).expr _ _ (numeric_get "value" numeric)) fun e settled =>
      .bind (only_required _ settled) fun e inner => .pure ?_
    refine ⟨by simpa [Regular.element] using inner.regular, inner.finite, ?_⟩
    rw [Restamp.element, inner.same]
    rfl
  next => exact .refuse _ _

theorem only_body (ih : ∀ m < n, Settling m) (numeric : Numeric j) :
    Only Settled.standing (body n path j) := by
  unfold body
  split
  next => exact .refuse _ _
  next n =>
    refine .ite (fun _ => .refuse_bind _ _ _) fun _ => ?_
    refine .bind (only_each (ih n (Nat.lt_succ_self n)).statement numeric) fun ss inner => .pure ?_
    have inner := Settled.statements inner
    refine ⟨by simp [Regular.body, Body.isMissing, inner.regular], inner.finite, ?_⟩
    rw [Restamp.body, inner.same]
    rfl

theorem only_optionalBody (ih : ∀ m < n, Settling m) (numeric : Numeric j) :
    Only Settled.body (optionalBody n path j) := by
  unfold optionalBody
  split
  next => exact .refuse _ _
  next n members =>
    intro b read
    have standing := (ih n (Nat.lt_succ_self n)).body _ _ numeric b read
    exact ⟨(Bool.and_eq_true _ _ ▸ standing.regular).2, standing.finite, standing.same⟩
  next => exact .pure ⟨rfl, List.forall_mem_nil _, rfl⟩

theorem only_statement (ih : ∀ m < n, Settling m) (numeric : Numeric j) :
    Only Settled.statement (statement n path j) := by
  unfold statement
  split
  next => exact .refuse _ _
  next n members =>
    have ih := ih n (Nat.lt_succ_self n)
    have part (name : String) := ih.expr (member path name) _ (numeric_get name numeric)
    have bodyOf (name : String) := ih.optionalBody (member path name) _ (numeric_get name numeric)
    have requiredPart (name : String) :=
      (part name).bind fun _ settled => only_required (member path name) settled
    have requiredBody (name complaint : String) :=
      (bodyOf name).bind fun _ settled => only_standing path complaint settled
    simp only
    refine .ite (fun _ => ?_) fun _ => .ite (fun _ => ?_) fun _ => .ite (fun _ => ?_) fun _ =>
      .ite (fun _ => ?_) fun _ => .ite (fun _ => ?_) fun _ => .ite (fun _ => ?_) fun _ =>
      .ite (fun _ => ?_) fun _ => .ite (fun _ => ?_) fun _ => .ite (fun _ => ?_) fun _ =>
      .ite (fun _ => ?_) fun _ => .refuse _ _
    · refine .bind (ih.body _ _ numeric) fun b inner => .pure ?_
      refine ⟨by simpa [Regular.statement] using inner.regular, inner.finite, ?_⟩
      rw [Restamp.statement, inner.same]
    · refine .bind (part "initializer") fun e inner => .pure ?_
      refine ⟨by simp [Regular.statement, inner.regular], inner.finite, ?_⟩
      rw [Restamp.statement, inner.same]
      rfl
    · split
      next parts found =>
        refine .bind (ih.primary _ _ (found ▸ numeric_get "target" numeric)) fun p target =>
          .bind (part "value") fun e inner => .pure ⟨?_, ?_, ?_⟩
        · simp [Regular.statement, target.regular, inner.regular]
        · exact List.forall_mem_append.mpr ⟨target.finite, inner.finite⟩
        · rw [Restamp.statement, target.same, inner.same]
          rfl
      next => exact .refuse _ _
    · refine .bind (requiredPart "condition") fun e test => .bind (requiredBody "then" _) fun b yes =>
        .bind (bodyOf "else") fun c no => .pure ⟨?_, ?_, ?_⟩
      · have test := test.regular
        have yes := yes.regular
        simp only [Bool.and_eq_true] at test yes
        simp [Regular.statement, test, yes, no.regular]
      · simp only [Reals.statement, List.forall_mem_append]
        exact ⟨⟨test.finite, yes.finite⟩, no.finite⟩
      · rw [Restamp.statement, test.same, yes.same, no.same]
        rfl
    · refine .bind (requiredPart "low") fun e low => .bind (requiredPart "high") fun f high =>
        .bind (requiredBody "body" _) fun b inner => .pure ⟨?_, ?_, ?_⟩
      · have low := low.regular
        have high := high.regular
        have inner := inner.regular
        simp only [Bool.and_eq_true] at low high inner
        simp [Regular.statement, low, high, inner]
      · simp only [Reals.statement, List.forall_mem_append]
        exact ⟨⟨low.finite, high.finite⟩, inner.finite⟩
      · rw [Restamp.statement, low.same, high.same, inner.same]
        rfl
    · refine .bind (requiredPart "condition") fun e test => .bind (requiredBody "body" _) fun b inner =>
        .pure ⟨?_, ?_, ?_⟩
      · have test := test.regular
        have inner := inner.regular
        simp only [Bool.and_eq_true] at test inner
        simp [Regular.statement, test, inner]
      · exact List.forall_mem_append.mpr ⟨test.finite, inner.finite⟩
      · rw [Restamp.statement, test.same, inner.same]
        rfl
    · refine .bind (only_each ih.requiredExpr numeric) fun es inner => .pure ?_
      have inner := Settled.exprs inner
      refine ⟨by simp [Regular.statement, inner.regular], inner.finite, ?_⟩
      rw [Restamp.statement, inner.same]
      rfl
    · refine .bind (part "value") fun e inner => .pure ?_
      refine ⟨by simp [Regular.statement, inner.regular], inner.finite, ?_⟩
      rw [Restamp.statement, inner.same]
      rfl
    · exact .pure ⟨regular_spanOf _, List.forall_mem_nil _, rfl⟩
    · exact .pure ⟨regular_spanOf _, List.forall_mem_nil _, rfl⟩
  next => exact .refuse _ _

end Steps

theorem settling_all (n : Nat) : Settling n := by
  induction n using Nat.strongRecOn with
  | ind n ih =>
    exact {
      expr := fun _ _ => only_expr ih
      operand := fun _ _ => only_operand ih
      primary := fun _ _ => only_primary ih
      tail := fun _ _ => only_tail ih
      requiredExpr := fun _ _ => only_requiredExpr ih
      literal := fun _ _ => only_literal ih
      element := fun _ _ => only_element ih
      statement := fun _ _ => only_statement ih
      body := fun _ _ => only_body ih
      optionalBody := fun _ _ => only_optionalBody ih }

/-- A decoded program is regular, has finite reals only, and none of its flags are raised. -/
theorem only_program {j : Json} (numeric : Numeric j) :
    Only (Settled Program.isRegular Program.reals (Program.restamp id)) (program j) := by
  unfold program
  refine .ite (fun _ => .refuse_bind _ _ _) fun _ => ?_
  split
  next members found =>
    refine .bind ((settling_all _).body _ _ (found ▸ numeric_get "body" numeric)) fun b inner => .pure ?_
    refine ⟨?_, inner.finite, ?_⟩
    · simpa [Program.isRegular, Bool.and_assoc] using inner.regular
    · rw [Program.restamp, inner.same]
      rfl
  next => exact .refuse _ _

end CellScript.Decoding
