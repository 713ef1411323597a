import CellScript.Proofs.Parsing.Extension

/-! The bound on steps that the parser gives itself is never reached: between two tokens no function is
called more than sixteen deep. -/
namespace CellScript.Parser

/-- Run at the cursor, the step does not run out of steps. -/
def Lasts {α : Type} (step : Parse α) (c : Cursor) : Prop := ∀ e, Fails step c e → e.cause ≠ .stepsExhausted

section Combinators

variable {α β : Type} {c d : Cursor} {a : α}

@[simp] theorem lasts_pure : Lasts (pure a : Parse α) c := fun _ fails => absurd fails not_fails_pure

@[simp] theorem lasts_unexpected {what : String} : Lasts (unexpected what : Parse α) c := by
  intro e fails
  rw [fails_unexpected.mp fails]
  nofun

@[simp] theorem lasts_failAt {span : Span} {cause : Cause} :
    Lasts (failAt span cause : Parse α) c ↔ cause ≠ .stepsExhausted := by
  unfold Lasts
  simp

@[simp low] theorem lasts_bind {step : Parse α} {next : α → Parse β} :
    Lasts (step >>= next) c ↔ Lasts step c ∧ ∀ a d, Gives step c a d → Lasts (next a) d := by
  unfold Lasts
  simp only [fails_bind]
  constructor
  · intro lasts
    exact ⟨fun e fails => lasts e (.inl fails), fun a d gives e fails => lasts e (.inr ⟨a, d, gives, fails⟩)⟩
  · rintro ⟨first, next⟩ e (fails | ⟨a, d, gives, fails⟩)
    · exact first e fails
    · exact next a d gives e fails

theorem Gives.lasts_bind {step : Parse α} {next : α → Parse β} (gives : Gives step c a d) :
    Lasts (step >>= next) c ↔ Lasts (next a) d := by
  unfold Lasts
  simp only [gives.fails_bind]

@[simp] theorem lasts_get {next : Cursor → Parse β} : Lasts (get >>= next) c ↔ Lasts (next c) c :=
  Gives.lasts_bind rfl

@[simp] theorem lasts_peek {next : Token.Kind → Parse β} :
    Lasts (peek >>= next) c ↔ Lasts (next (c.kindAt 0)) c := Gives.lasts_bind rfl

@[simp] theorem lasts_here {next : Span → Parse β} :
    Lasts (here >>= next) c ↔ Lasts (next c.nextSpan) c := Gives.lasts_bind rfl

@[simp] theorem lasts_spanFrom {start : Span} {next : Span → Parse β} :
    Lasts (spanFrom start >>= next) c ↔ Lasts (next (start.upTo c.lastSpan)) c := Gives.lasts_bind rfl

@[simp] theorem lasts_advance {next : Unit → Parse β} :
    Lasts (advance >>= next) c ↔ Lasts (next ()) c.skip := Gives.lasts_bind rfl

@[simp] theorem lasts_accept {kind : Token.Kind} {next : Bool → Parse β} :
    Lasts (accept kind >>= next) c ↔
      if c.kindAt 0 = kind then Lasts (next true) c.skip else Lasts (next false) c := by
  split
  next same => exact (gives_accept_of same).lasts_bind
  next other => exact (gives_accept_not other).lasts_bind

theorem lasts_expect {kind : Token.Kind} {name context : String} (token : kind ≠ .endOfInput) :
    Lasts (expect kind name context) c := by
  by_cases next : c.kindAt 0 = kind
  · exact fun e fails => absurd fails (expect_eq next token).not_fails
  · exact fun e fails => lasts_unexpected e ((expect_fails next).mp fails)

theorem lasts_expect_bind {kind : Token.Kind} {name context : String} {next : Text → Parse β}
    (token : kind ≠ .endOfInput) :
    Lasts (expect kind name context >>= next) c ↔ (c.kindAt 0 = kind → Lasts (next c.value) c.skip) := by
  by_cases same : c.kindAt 0 = kind
  · simp only [same, true_imp_iff]
    exact (expect_eq same token).lasts_bind
  · have refused {a : Text} {d : Cursor} : ¬ Gives (expect kind name context) c a d := by
      intro gives
      exact gives.not_fails ((expect_fails same).mpr (fails_unexpected.mpr rfl))
    simp [same, lasts_expect token, refused]

@[simp] theorem lasts_expectName {context : String} {next : Text → Parse β} :
    Lasts (expectName context >>= next) c ↔ (c.kindAt 0 = .name → Lasts (next c.value) c.skip) :=
  lasts_expect_bind nofun

@[simp] theorem lasts_expectMark {m : Mark} {context : String} {next : Unit → Parse β} :
    Lasts (expectMark m context >>= next) c ↔ (c.kindAt 0 = .mark m → Lasts (next ()) c.skip) := by
  unfold expectMark
  simp only [bind_assoc, pure_bind]
  exact lasts_expect_bind nofun

@[simp] theorem lasts_expectWord {k : Keyword} {context : String} {next : Unit → Parse β} :
    Lasts (expectWord k context >>= next) c ↔ (c.kindAt 0 = .keyword k → Lasts (next ()) c.skip) := by
  unfold expectWord
  simp only [bind_assoc, pure_bind]
  exact lasts_expect_bind nofun

@[simp] theorem lasts_ite {p : Prop} [Decidable p] {yes no : Parse α} :
    Lasts (if p then yes else no) c ↔ if p then Lasts yes c else Lasts no c := by
  split <;> rfl

end Combinators

section Words

variable {c : Cursor}

theorem lasts_unaryOp : Lasts unaryOp c := by
  rw [unaryOp, lasts_peek]
  cases unaryOp? (c.kindAt 0) <;> simp [-bind_pure_comp]

theorem lasts_typeName : Lasts typeName c := by
  rw [typeName, lasts_get]
  split <;> simp [-bind_pure_comp]

theorem lasts_typeTest : Lasts typeTest c := by
  simp [-bind_pure_comp, typeTest, lasts_typeName]

theorem lasts_scalar : Lasts scalar? c := by
  rw [scalar?, lasts_get]
  split
  next => simp
  next t _ _ =>
    split
    · cases integerValue? t.value <;> simp [-bind_pure_comp]
    · cases Real.read? t.value <;> simp [-bind_pure_comp]
    all_goals simp [-bind_pure_comp]

theorem lasts_selector {start : Span} : Lasts (selector start) c := by
  rw [selector, lasts_get]
  split
  next t _ _ =>
    split
    · cases integerValue? t.value <;> simp [-bind_pure_comp]
    all_goals simp [-bind_pure_comp]
  next => simp

theorem lasts_label : Lasts elementName c := by
  rw [elementName, lasts_get]
  split
  · simp [-bind_pure_comp]
  · simp

end Words

/-- What a phrase takes. -/
theorem taken {n : Nat} {c d : Cursor} (ph : Phrase) (given : ph.Given n [] c d) :
    d.rest.length + ph.least ≤ c.rest.length :=
  ((understood (n + 1)).phrase ph given).length_le

theorem taken_variable {n : Nat} {c d : Cursor} {p : Primary} (gives : Gives (variablePrimary n) c p d) :
    d.rest.length < c.rest.length := by
  cases n with
  | zero => exact absurd gives not_gives_exhausted
  | succ n =>
    obtain ⟨span, name, ts, rfl, parses⟩ := parses_reference (understood (n + 1)) gives
    exact parses.length_le

/-- With how many steps no function runs out of them. -/
structure Supplied (n : Nat) : Prop where
  expression {c : Cursor} (enough : 16 * c.rest.length + 4 ≤ n) : Lasts (expression n) c
  operators {c : Cursor} (enough : 16 * c.rest.length + 1 ≤ n) : Lasts (moreOperands n) c
  expressions {c : Cursor} (enough : 16 * c.rest.length + 5 ≤ n) : Lasts (expressionList n) c
  operand {c : Cursor} (enough : 16 * c.rest.length + 3 ≤ n) : Lasts (operand n) c
  primary {c : Cursor} (enough : 16 * c.rest.length + 2 ≤ n) : Lasts (primary n) c
  variablePrimary {c : Cursor} (enough : 16 * c.rest.length + 1 ≤ n) : Lasts (variablePrimary n) c
  tails {c : Cursor} (enough : 16 * c.rest.length + 2 ≤ n) : Lasts (tails n) c
  tail {c : Cursor} (enough : 16 * c.rest.length + 1 ≤ n) : Lasts (tail? n) c
  literal {c : Cursor} (enough : 16 * c.rest.length + 1 ≤ n) : Lasts (literal n) c
  elements {c : Cursor} (enough : 16 * c.rest.length + 5 ≤ n) : Lasts (tupleElements n) c
  function {c : Cursor} (start : Span) (enough : 16 * c.rest.length + 1 ≤ n) :
    Lasts (functionLiteral n start) c
  names {c : Cursor} (enough : 16 * c.rest.length + 1 ≤ n) : Lasts (parameterNames n) c
  statements {c : Cursor} {closing : List Token.Kind} (within : closing ⊆ closers)
    (enough : 16 * c.rest.length + 4 ≤ n) : Lasts (statements n closing) c
  body {c : Cursor} {closing : List Token.Kind} (within : closing ⊆ closers)
    (enough : 16 * c.rest.length + 5 ≤ n) : Lasts (body n closing) c
  statement {c : Cursor} (enough : 16 * c.rest.length + 3 ≤ n) : Lasts (statement n) c
  declarations {c : Cursor} (enough : 16 * c.rest.length + 1 ≤ n) : Lasts (declarations n) c
  assignment {c : Cursor} (enough : 16 * c.rest.length + 2 ≤ n) : Lasts (assignment n) c
  branch {c : Cursor} (start : Span) (enough : 16 * c.rest.length + 5 ≤ n) : Lasts (branch n start) c
  forLoop {c : Cursor} (start : Span) (enough : 16 * c.rest.length + 1 ≤ n) : Lasts (forLoop n start) c
  whileLoop {c : Cursor} (start : Span) (enough : 16 * c.rest.length + 5 ≤ n) : Lasts (whileLoop n start) c

namespace Supplied

section Succ

variable {n : Nat} (supplied : Supplied n) {c : Cursor}

include supplied

theorem expression_succ (enough : 16 * c.rest.length + 4 ≤ n + 1) : Lasts (Parser.expression (n + 1)) c := by
  simp [-bind_pure_comp, Parser.expression]
  refine ⟨supplied.operand (by omega), fun x d first => ?_⟩
  have shorter := taken (.operand x) first
  simp only [Phrase.least] at shorter
  exact supplied.operators (by omega)

theorem operators_succ (enough : 16 * c.rest.length + 1 ≤ n + 1) : Lasts (moreOperands (n + 1)) c := by
  rw [moreOperands, lasts_peek]
  cases next : binaryOp? (c.kindAt 0) with
  | none => exact lasts_pure
  | some op =>
    simp [-bind_pure_comp]
    have step := Cursor.length_step_of next rfl
    refine ⟨supplied.operand (by omega), fun x d first => ?_⟩
    have shorter := taken (.operand x) first
    simp only [Phrase.least] at shorter
    exact supplied.operators (by omega)

theorem expressions_succ (enough : 16 * c.rest.length + 5 ≤ n + 1) : Lasts (expressionList (n + 1)) c := by
  simp [-bind_pure_comp, expressionList]
  refine ⟨supplied.expression (by omega), fun e d first comma => ?_⟩
  have shorter := taken (.expression e) first
  have step := Cursor.length_step comma (by decide)
  simp only [Phrase.least] at shorter
  exact supplied.expressions (by omega)

theorem operand_succ (enough : 16 * c.rest.length + 3 ≤ n + 1) : Lasts (Parser.operand (n + 1)) c := by
  simp [-bind_pure_comp, Parser.operand, lasts_unaryOp, lasts_typeTest]
  intro op d sign
  have shorter := taken (n := n) (.sign op) sign
  simp only [Phrase.least] at shorter
  exact supplied.primary (by omega)

theorem primary_succ (enough : 16 * c.rest.length + 2 ≤ n + 1) : Lasts (Parser.primary (n + 1)) c := by
  rw [Parser.primary, lasts_here, lasts_peek]
  cases readKind? (c.kindAt 0) with
  | some r => simp [-bind_pure_comp]
  | none =>
    simp [-bind_pure_comp]
    split
    next name => exact supplied.variablePrimary (by omega)
    next =>
    split
    next paren =>
      have step := Cursor.length_step paren (by decide)
      exact supplied.expression (by omega)
    next => exact supplied.literal (by omega)

theorem variablePrimary_succ (enough : 16 * c.rest.length + 1 ≤ n + 1) :
    Lasts (Parser.variablePrimary (n + 1)) c := by
  simp [-bind_pure_comp, Parser.variablePrimary]
  intro name
  have step := Cursor.length_step name (by decide)
  exact supplied.tails (by omega)

theorem tail_succ (enough : 16 * c.rest.length + 1 ≤ n + 1) : Lasts (tail? (n + 1)) c := by
  simp [-bind_pure_comp, tail?, lasts_selector]
  intro dot
  split
  next bracket =>
    have step := Cursor.length_step bracket (by decide)
    exact supplied.expression (by omega)
  next =>
    intro paren _
    have step := Cursor.length_step paren (by decide)
    exact supplied.expressions (by omega)

theorem tails_succ (enough : 16 * c.rest.length + 2 ≤ n + 1) : Lasts (Parser.tails (n + 1)) c := by
  rw [Parser.tails, lasts_bind]
  refine ⟨supplied.tail (by omega), fun t d first => ?_⟩
  cases t with
  | none => exact lasts_pure
  | some t =>
    have shorter := taken (.tail t) first
    simp only [Phrase.least] at shorter
    simp [-bind_pure_comp]
    exact supplied.tails (by omega)

theorem literal_succ (enough : 16 * c.rest.length + 1 ≤ n + 1) : Lasts (Parser.literal (n + 1)) c := by
  rw [Parser.literal, lasts_here, lasts_bind]
  refine ⟨lasts_scalar, fun l d scalar => ?_⟩
  obtain ⟨l, rfl, -⟩ | ⟨rfl, rfl⟩ := parses_scalar scalar
  · exact lasts_pure
  simp [-bind_pure_comp]
  split
  next bracket =>
    intro _
    have step := Cursor.length_step bracket (by decide)
    exact supplied.expressions (by omega)
  next =>
  split
  next brace =>
    have step := Cursor.length_step brace (by decide)
    exact supplied.elements (by omega)
  next =>
    intro word
    have step := Cursor.length_step word (by decide)
    exact supplied.function _ (by omega)

theorem elements_succ (enough : 16 * c.rest.length + 5 ≤ n + 1) : Lasts (tupleElements (n + 1)) c := by
  simp [-bind_pure_comp, tupleElements, lasts_label]
  intro _ name a label
  have shorter := taken (n := n) (.label name) label
  simp only [Phrase.least] at shorter
  refine ⟨supplied.expression (by omega), fun e m value comma => ?_⟩
  have shorter' := taken (.expression e) value
  have step := Cursor.length_step comma (by decide)
  simp only [Phrase.least] at shorter'
  exact supplied.elements (by omega)

theorem names_succ (enough : 16 * c.rest.length + 1 ≤ n + 1) : Lasts (parameterNames (n + 1)) c := by
  simp [-bind_pure_comp, parameterNames]
  intro _ name comma
  have step := Cursor.length_step name (by decide)
  have step' := Cursor.length_step comma (by decide)
  exact supplied.names (by omega)

theorem parameters (enough : 16 * c.rest.length ≤ n) : Lasts (parameters n) c := by
  simp [-bind_pure_comp, Parser.parameters]
  intro paren
  have step := Cursor.length_step paren (by decide)
  exact supplied.names (by omega)

theorem function_succ (start : Span) (enough : 16 * c.rest.length + 1 ≤ n + 1) :
    Lasts (functionLiteral (n + 1) start) c := by
  simp [-bind_pure_comp, functionLiteral]
  refine ⟨supplied.parameters (by omega), fun xs d params => ?_⟩
  have shorter := taken (.parameters xs) params
  simp only [Phrase.least] at shorter
  split
  next word =>
    have step := Cursor.length_step word (by decide)
    exact supplied.body (by decide) (by omega)
  next =>
    intro arrow
    have step := Cursor.length_step arrow (by decide)
    exact supplied.expression (by omega)

variable {closing : List Token.Kind} (within : closing ⊆ closers)

include within

theorem statements_succ (enough : 16 * c.rest.length + 4 ≤ n + 1) :
    Lasts (Parser.statements (n + 1) closing) c := by
  simp [-bind_pure_comp, Parser.statements]
  split
  next semicolon =>
    have step := Cursor.length_step semicolon (by decide)
    exact supplied.statements within (by omega)
  next =>
    intro _ _
    refine ⟨supplied.statement (by omega), fun s d first => ?_⟩
    have shorter := taken (.statement s) first
    simp only [Phrase.least] at shorter
    exact supplied.statements within (by omega)

theorem body_succ (enough : 16 * c.rest.length + 5 ≤ n + 1) : Lasts (Parser.body (n + 1) closing) c := by
  simp [-bind_pure_comp, Parser.body]
  exact supplied.statements within (by omega)

omit within

theorem declarations_succ (enough : 16 * c.rest.length + 1 ≤ n + 1) : Lasts (Parser.declarations (n + 1)) c := by
  simp [-bind_pure_comp, Parser.declarations]
  intro name
  have step := Cursor.length_step name (by decide)
  split
  next assign =>
    have step' := Cursor.length_step assign (by decide)
    refine ⟨supplied.expression (by omega), fun e d value comma _ => ?_⟩
    have shorter := taken (.expression e) value
    have step'' := Cursor.length_step comma (by decide)
    simp only [Phrase.least] at shorter
    exact supplied.declarations (by omega)
  next =>
    intro comma _
    have step' := Cursor.length_step comma (by decide)
    exact supplied.declarations (by omega)

theorem assignment_succ (enough : 16 * c.rest.length + 2 ≤ n + 1) : Lasts (Parser.assignment (n + 1)) c := by
  rw [Parser.assignment, lasts_here, lasts_bind]
  refine ⟨supplied.variablePrimary (by omega), fun target d first => ?_⟩
  rw [lasts_peek]
  have shorter := taken_variable first
  cases next : assignOp? (d.kindAt 0) with
  | some op =>
    have step := Cursor.length_step_of next rfl
    simp [-bind_pure_comp]
    exact supplied.expression (by omega)
  | none =>
    cases target with
    | ref span name ts => by_cases last : endsInCall ts <;> simp [-bind_pure_comp, last]
    | _ => simp

theorem branch_succ (start : Span) (enough : 16 * c.rest.length + 5 ≤ n + 1) :
    Lasts (Parser.branch (n + 1) start) c := by
  simp [-bind_pure_comp, Parser.branch]
  refine ⟨supplied.expression (by omega), fun e d condition word => ?_⟩
  have shorter := taken (.expression e) condition
  have step := Cursor.length_step word (by decide)
  simp only [Phrase.least] at shorter
  refine ⟨supplied.body (by decide) (by omega), fun yes m inner otherwise => ?_⟩
  have shorter' := (understood _ n n.lt_succ_self _ (by decide) (.body yes) _ m inner).length_le
  have step' := Cursor.length_step otherwise (by decide)
  simp only [Phrase.least] at shorter'
  exact supplied.body (by decide) (by omega)

theorem forLoop_succ (start : Span) (enough : 16 * c.rest.length + 1 ≤ n + 1) :
    Lasts (Parser.forLoop (n + 1) start) c := by
  simp [-bind_pure_comp, Parser.forLoop]
  intro name range
  have step := Cursor.length_step name (by decide)
  have step' := Cursor.length_step range (by decide)
  refine ⟨supplied.expression (by omega), fun low l first dots => ?_⟩
  have shorter := taken (.expression low) first
  have step'' := Cursor.length_step dots (by decide)
  simp only [Phrase.least] at shorter
  refine ⟨supplied.expression (by omega), fun high h last word => ?_⟩
  have shorter' := taken (.expression high) last
  have opened := Cursor.length_step word (by decide)
  simp only [Phrase.least] at shorter'
  exact supplied.body (by decide) (by omega)

theorem whileLoop_succ (start : Span) (enough : 16 * c.rest.length + 5 ≤ n + 1) :
    Lasts (Parser.whileLoop (n + 1) start) c := by
  simp [-bind_pure_comp, Parser.whileLoop]
  refine ⟨supplied.expression (by omega), fun e d condition word => ?_⟩
  have shorter := taken (.expression e) condition
  have step := Cursor.length_step word (by decide)
  simp only [Phrase.least] at shorter
  exact supplied.body (by decide) (by omega)

theorem statement_succ (enough : 16 * c.rest.length + 3 ≤ n + 1) : Lasts (Parser.statement (n + 1)) c := by
  rw [Parser.statement, lasts_here, lasts_peek]
  split
  next word =>
    have step := Cursor.length_step word (by decide)
    simp
    exact supplied.declarations (by omega)
  next word =>
    have step := Cursor.length_step word (by decide)
    simp [-bind_pure_comp]
    exact supplied.branch _ (by omega)
  next word =>
    have step := Cursor.length_step word (by decide)
    simp [-bind_pure_comp]
    exact supplied.forLoop _ (by omega)
  next word =>
    have step := Cursor.length_step word (by decide)
    simp [-bind_pure_comp]
    exact supplied.whileLoop _ (by omega)
  next word =>
    have step := Cursor.length_step word (by decide)
    simp [-bind_pure_comp]
    exact supplied.expressions (by omega)
  next word =>
    have step := Cursor.length_step word (by decide)
    simp [-bind_pure_comp]
    exact fun _ => supplied.expression (by omega)
  next => simp [-bind_pure_comp]
  next => simp [-bind_pure_comp]
  next =>
    simp [-bind_pure_comp]
    exact supplied.assignment (by omega)
  next => exact lasts_unexpected

theorem succ : Supplied (n + 1) where
  expression := supplied.expression_succ
  operators := supplied.operators_succ
  expressions := supplied.expressions_succ
  operand := supplied.operand_succ
  primary := supplied.primary_succ
  variablePrimary := supplied.variablePrimary_succ
  tails := supplied.tails_succ
  tail := supplied.tail_succ
  literal := supplied.literal_succ
  elements := supplied.elements_succ
  function := supplied.function_succ
  names := supplied.names_succ
  statements := supplied.statements_succ
  body := supplied.body_succ
  statement := supplied.statement_succ
  declarations := supplied.declarations_succ
  assignment := supplied.assignment_succ
  branch := supplied.branch_succ
  forLoop := supplied.forLoop_succ
  whileLoop := supplied.whileLoop_succ

end Succ

end Supplied

theorem supplied (n : Nat) : Supplied n := by
  induction n with
  | zero => constructor <;> intros <;> omega
  | succ n ih => exact ih.succ

theorem parseTokens_eq_error {ts : Lexer.Tokens} {e : Error} :
    parseTokens ts = .error e ↔
      Fails (statements (16 * (ts.tokens.length + 1)) [.endOfInput]) (.ofTokens ts) e := by
  have run : parseTokens ts = .error e ↔
      Fails (program (16 * (ts.tokens.length + 1))) (.ofTokens ts) e := by
    unfold parseTokens Fails
    split
    next p d gives => simp [gives]
    next e' fails => simp [fails]
  rw [run, program, fails_here, fails_bind]
  simp [-bind_pure_comp]

/-- The parser never runs out of steps. -/
theorem parseTokens_lasts {ts : Lexer.Tokens} {e : Error} (fails : parseTokens ts = .error e) :
    e.cause ≠ .stepsExhausted := by
  refine (supplied _).statements (by decide) ?_ e (parseTokens_eq_error.mp fails)
  simp only [Cursor.ofTokens]
  omega

end CellScript.Parser
