import CellScript.Proofs.Parsing.Reading

/-! Reading takes tokens: a phrase that needs one leaves fewer behind. So what the rules read, the parser
reads within its bound on steps, and it accepts tokens exactly if the rules read them all. -/
namespace CellScript.Parser

namespace Cursor

theorem rest_skip (c : Cursor) : c.skip.rest = c.rest.tail := by
  unfold skip
  cases rest : c.rest <;> simp [rest]

theorem length_skip (c : Cursor) : c.skip.rest.length = c.rest.length - 1 := by
  rw [rest_skip, List.length_tail]

theorem length_pos {c : Cursor} (token : c.kindAt 0 ≠ .endOfInput) : 0 < c.rest.length := by
  obtain ⟨t, rest, -⟩ := c.rest_eq_of_kind rfl token
  simp [rest]

theorem length_step {c : Cursor} {kind : Token.Kind} (next : c.kindAt 0 = kind)
    (token : kind ≠ .endOfInput) : c.skip.rest.length + 1 = c.rest.length := by
  have pos := length_pos (by rwa [next])
  rw [length_skip]
  omega

end Cursor

/-- The least number of tokens that the phrase takes. -/
def Phrase.least : Phrase → Nat
  | .expression _ | .expressions _ | .operand _ | .primary _ | .tail _ | .literal _ | .statement _
  | .declarations _ => 1
  | .operators _ | .sign _ | .test _ | .tails _ | .label _ | .elements _ | .names _ | .parameters _
  | .statements _ | .body _ | .initial _ => 0

theorem Cursor.length_step_of {α : Type} {c : Cursor} {meaning : Token.Kind → Option α} {a : α}
    (next : meaning (c.kindAt 0) = some a) (none : meaning .endOfInput = none) :
    c.skip.rest.length + 1 = c.rest.length := by
  refine Cursor.length_step rfl fun stop => ?_
  rw [stop, none] at next
  cases next

theorem Parses.length_le {ph : Phrase} {c d : Cursor} (parses : Parses ph c d) :
    d.rest.length + ph.least ≤ c.rest.length := by
  induction parses with
  | noOperator | noSign | noTest | noTail | noLabel | noElement | noName | noParameters | noStatement
  | noInitial => exact Nat.le_refl _
  | sign next | read next =>
    have step := Cursor.length_step_of next rfl
    simp only [Phrase.least]
    omega
  | wordTest next word =>
    have step := Cursor.length_step next (by decide)
    have step' := Cursor.length_step_of word rfl
    simp only [Phrase.least]
    omega
  | integer next | real next | string next | trueWord next | falseWord next | emptyWord next
  | lastName next | ret next | brk next | cont next =>
    have step := Cursor.length_step next (by decide)
    simp only [Phrase.least]
    omega
  | index next next' | field next next' | emptyCall next next' | emptyArray next next'
  | label next next' =>
    have step := Cursor.length_step next (by decide)
    have step' := Cursor.length_step next' (by decide)
    simp only [Phrase.least]
    omega
  | arrayTest next left right | tupleTest next left right =>
    have step := Cursor.length_step next (by decide)
    have opened := Cursor.length_step left (by decide)
    have closed := Cursor.length_step right (by decide)
    simp only [Phrase.least]
    omega
  | constant _ ih | lastExpression _ _ ih | body _ ih | effect _ _ _ ih =>
    simp only [Phrase.least] at ih ⊢
    omega
  | expression _ _ ih ih' | anotherTail _ _ ih ih' | anotherStatement _ _ ih ih'
  | lastElement _ _ _ ih ih' =>
    simp only [Phrase.least] at ih ih' ⊢
    omega
  | reference next _ ih | semicolon next _ ih | declare next _ ih | print next _ ih | retValue next _ ih
  | initial next _ ih | lastDeclaration next _ _ ih =>
    have step := Cursor.length_step next (by decide)
    simp only [Phrase.least] at ih ⊢
    omega
  | paren left _ right ih | subscript left _ right ih | call left _ right ih | array left _ right ih
  | tuple left _ right ih | parameters left _ right ih =>
    have opened := Cursor.length_step left (by decide)
    have closed := Cursor.length_step right (by decide)
    simp only [Phrase.least] at ih ⊢
    omega
  | operator next _ _ ih ih' =>
    have step := Cursor.length_step_of next rfl
    simp only [Phrase.least] at ih ih' ⊢
    omega
  | operand _ _ _ ih ih' ih'' =>
    simp only [Phrase.least] at ih ih' ih'' ⊢
    omega
  | anotherExpression _ next _ ih ih' =>
    have step := Cursor.length_step next (by decide)
    simp only [Phrase.least] at ih ih' ⊢
    omega
  | anotherElement _ _ next _ ih ih' ih'' =>
    have step := Cursor.length_step next (by decide)
    simp only [Phrase.least] at ih ih' ih'' ⊢
    omega
  | anotherName name next _ ih =>
    have named := Cursor.length_step name (by decide)
    have step := Cursor.length_step next (by decide)
    simp only [Phrase.least] at ih ⊢
    omega
  | anotherDeclaration name _ next _ ih ih' =>
    have named := Cursor.length_step name (by decide)
    have step := Cursor.length_step next (by decide)
    simp only [Phrase.least] at ih ih' ⊢
    omega
  | assign _ next _ ih ih' =>
    have step := Cursor.length_step_of next rfl
    simp only [Phrase.least] at ih ih' ⊢
    omega
  | lambda word _ opening _ ih ih' =>
    have step := Cursor.length_step word (by decide)
    have opened := Cursor.length_step opening (by decide)
    simp only [Phrase.least] at ih ih' ⊢
    omega
  | function word _ opening _ closing ih ih' | branch word _ opening _ closing ih ih'
  | whileLoop word _ opening _ closing ih ih' =>
    have step := Cursor.length_step word (by decide)
    have opened := Cursor.length_step opening (by decide)
    have closed := Cursor.length_step closing (by decide)
    simp only [Phrase.least] at ih ih' ⊢
    omega
  | branches word _ opening _ otherwise _ closing ih ih' ih'' =>
    have step := Cursor.length_step word (by decide)
    have opened := Cursor.length_step opening (by decide)
    have opened' := Cursor.length_step otherwise (by decide)
    have closed := Cursor.length_step closing (by decide)
    simp only [Phrase.least] at ih ih' ih'' ⊢
    omega
  | forLoop word counter range _ dots _ opening _ closing ih ih' ih'' =>
    have step := Cursor.length_step word (by decide)
    have named := Cursor.length_step counter (by decide)
    have ranged := Cursor.length_step range (by decide)
    have dotted := Cursor.length_step dots (by decide)
    have opened := Cursor.length_step opening (by decide)
    have closed := Cursor.length_step closing (by decide)
    simp only [Phrase.least] at ih ih' ih'' ⊢
    omega

/-- The tokens with which a literal starts. -/
def literalStarts : List Token.Kind :=
  [.integer, .real, .string, .keyword .trueWord, .keyword .falseWord, .keyword .emptyWord,
    .mark .leftBracket, .mark .leftBrace, .keyword .funcWord]

section Starts

variable {c d : Cursor}

theorem ne_of_starts {kind other : Token.Kind} (starts : startsExpression kind)
    (ends : startsExpression other = false) : kind ≠ other := by
  rintro rfl
  rw [ends] at starts
  cases starts

theorem Parses.literal_starts {l : Literal} (parses : Parses (.literal l) c d) :
    c.kindAt 0 ∈ literalStarts := by
  cases parses <;> simp [literalStarts, *]

theorem Parses.primary_starts {p : Primary} (parses : Parses (.primary p) c d) :
    startsExpression (c.kindAt 0) := by
  cases parses with
  | read next =>
    revert next
    cases c.kindAt 0 with
    | keyword k => cases k <;> simp [readKind?, startsExpression]
    | _ => simp [readKind?]
  | reference next => rw [next]; rfl
  | paren left => rw [left]; rfl
  | constant value =>
    have all : ∀ kind ∈ literalStarts, startsExpression kind := by decide
    exact all _ value.literal_starts

theorem Parses.operand_starts {x : Operand} (parses : Parses (.operand x) c d) :
    startsExpression (c.kindAt 0) := by
  cases parses with
  | operand sign inner =>
    cases sign with
    | noSign => exact inner.primary_starts
    | sign next =>
      revert next
      cases c.kindAt 0 with
      | keyword k => cases k <;> simp [unaryOp?, startsExpression]
      | mark m => cases m <;> simp [unaryOp?, startsExpression]
      | _ => simp [unaryOp?]

theorem Parses.expression_starts {e : Expr} (parses : Parses (.expression e) c d) :
    startsExpression (c.kindAt 0) := by
  cases parses with
  | expression first => exact first.operand_starts

theorem Parses.expressions_starts {es : List Expr} (parses : Parses (.expressions es) c d) :
    startsExpression (c.kindAt 0) := by
  cases parses with
  | lastExpression last => exact last.expression_starts
  | anotherExpression first => exact first.expression_starts

theorem Parses.reference_starts {span : Span} {name : Text} {ts : List Tail}
    (parses : Parses (.primary (.ref span name ts)) c d) : c.kindAt 0 = .name := by
  cases parses with
  | reference next => exact next

theorem Parses.statement_starts {ss : List Statement} (parses : Parses (.statement ss) c d) :
    c.kindAt 0 ∉ .mark .semicolon :: closers := by
  cases parses with
  | assign target | effect target => simp [closers, target.reference_starts]
  | _ => simp [closers, *]

theorem Parses.declarations_starts {ss : List Statement} (parses : Parses (.declarations ss) c d) :
    c.kindAt 0 = .name := by
  cases parses with
  | lastDeclaration name => exact name
  | anotherDeclaration name => exact name

end Starts

/-- Steps that the function for a phrase takes before its first token. -/
def Phrase.spare : Phrase → Nat
  | .sign _ | .test _ | .tail _ | .literal _ | .label _ | .declarations _ | .initial _ => 0
  | .operators _ | .primary _ | .names _ | .parameters _ => 1
  | .operand _ | .tails _ | .statement _ => 2
  | .expression _ | .statements _ => 3
  | .expressions _ | .elements _ | .body _ => 4

/-- Where statements end, one of the closing tokens stands. -/
def Phrase.Closed (closing : List Token.Kind) (d : Cursor) : Phrase → Prop
  | .statements _ | .body _ => d.kindAt 0 ∈ closing
  | _ => True

/-- With enough steps the parser's function for the phrase reads it. -/
def Phrase.Reached (ph : Phrase) (c d : Cursor) : Prop :=
  ∀ n closing, closing ⊆ closers → ph.Closed closing d → 16 * c.rest.length + ph.spare ≤ n →
    ph.Given n closing c d

section Reached

variable {c m d : Cursor} {ph : Phrase}

theorem Phrase.spare_le (ph : Phrase) : ph.spare ≤ 4 := by
  cases ph <;> simp [Phrase.spare]

/-- A phrase that starts where the one around it starts. -/
theorem Phrase.Reached.given_here (reached : ph.Reached c d) (n : Nat) (closed : ph.Closed [] d)
    (enough : 16 * c.rest.length + ph.spare ≤ n) : ph.Given n [] c d :=
  reached n [] (List.nil_subset _) closed enough

/-- A phrase in front of which a token was taken. -/
theorem Phrase.Reached.given (reached : ph.Reached c d) (n : Nat) (closed : ph.Closed [] d)
    (enough : 16 * c.rest.length + 4 ≤ n) : ph.Given n [] c d :=
  reached.given_here n closed (Nat.le_trans (Nat.add_le_add_left ph.spare_le _) enough)

theorem Phrase.reached_of_step (positive : 0 < 16 * c.rest.length + ph.spare)
    (step : ∀ n closing, closing ⊆ closers → ph.Closed closing d →
      16 * c.rest.length + ph.spare ≤ n + 1 → ph.Given (n + 1) closing c d) : ph.Reached c d := by
  intro n closing within closed enough
  cases n with
  | zero => omega
  | succ n => exact step n closing within closed enough

/-- The same for a phrase whose function hands over to another one before its first token. -/
theorem Phrase.reached_of_steps (room : 1 < 16 * c.rest.length + ph.spare)
    (step : ∀ n closing, closing ⊆ closers → ph.Closed closing d →
      16 * c.rest.length + ph.spare ≤ n + 2 → ph.Given (n + 2) closing c d) : ph.Reached c d := by
  refine Phrase.reached_of_step (by omega) fun n closing within closed enough => ?_
  cases n with
  | zero => omega
  | succ n => exact step n closing within closed enough

/-- A body is read up to a token that closes it. -/
theorem Phrase.Reached.enclosed {b : Body} (reached : (Phrase.body b).Reached c d) (n : Nat)
    (closing : List Token.Kind) (within : closing ⊆ closers) (closed : d.kindAt 0 ∈ closing)
    (enough : 16 * c.rest.length + 4 ≤ n) : Gives (Parser.body n closing) c b d :=
  reached n closing within closed enough

theorem reached_sign {op : Option (Word UnaryOp)} (parses : Parses (.sign op) c d) :
    Gives unaryOp c op d := by
  cases parses with
  | noSign next => simp [unaryOp, next]
  | sign next => simp [-bind_pure_comp, unaryOp, next]

theorem reached_test {t : Option (Word TypeName)} (parses : Parses (.test t) c d) :
    Gives typeTest c t d := by
  cases parses with
  | noTest next => simp [typeTest, next]
  | wordTest next word => simp [-bind_pure_comp, typeTest, typeName, next, word]
  | arrayTest next left right =>
    simp [-bind_pure_comp, typeTest, typeName, next, left, right, Cursor.kindAt_one, typeWord?]
  | tupleTest next left right =>
    simp [-bind_pure_comp, typeTest, typeName, next, left, right, Cursor.kindAt_one, typeWord?]

theorem reached_label {name : Text} (parses : Parses (.label name) c d) :
    Gives elementName c name d := by
  cases parses with
  | noLabel next => 
    rw [elementName, gives_get]
    cases rest : c.rest with
    | nil => simp
    | cons t ts =>
      obtain ⟨kind, -⟩ := Cursor.next_eq rest
      simp [kind, next, Cursor.kindAt_one]
  | label next assign => 
    rw [elementName, gives_get]
    obtain ⟨t, rest, kind, value⟩ := c.rest_eq_of_kind next (by rintro ⟨⟩)
    simp [-bind_pure_comp, rest, kind, value, assign, Cursor.kindAt_one]

theorem reached_scalar {l : Literal} (parses : Parses (.literal l) c d) (scalar : l.isScalar) :
    Gives scalar? c (some l) d := by
  cases parses with
  | integer next value =>
    obtain ⟨t, rest, kind, same⟩ := c.rest_eq_of_kind next (by rintro ⟨⟩)
    have span : t.span = c.nextSpan := (Cursor.next_eq rest).2.2
    simp [-bind_pure_comp, scalar?, rest, kind, same, value, span]
  | real next value =>
    obtain ⟨t, rest, kind, same⟩ := c.rest_eq_of_kind next (by rintro ⟨⟩)
    have span : t.span = c.nextSpan := (Cursor.next_eq rest).2.2
    simp [-bind_pure_comp, scalar?, rest, kind, same, value, span]
  | string next =>
    obtain ⟨t, rest, kind, same⟩ := c.rest_eq_of_kind next (by rintro ⟨⟩)
    have span : t.span = c.nextSpan := (Cursor.next_eq rest).2.2
    simp [-bind_pure_comp, scalar?, rest, kind, same, span]
  | trueWord next | falseWord next | emptyWord next =>
    obtain ⟨t, rest, kind, -⟩ := c.rest_eq_of_kind next (by rintro ⟨⟩)
    have span : t.span = c.nextSpan := (Cursor.next_eq rest).2.2
    simp [-bind_pure_comp, scalar?, rest, kind, span]
  | _ => cases scalar

theorem reached_scalarLiteral {l : Literal} (scalar : l.isScalar) (parses : Parses (.literal l) c d) :
    (Phrase.literal l).Reached c d := by
  have shorter := parses.length_le
  simp only [Phrase.least] at shorter
  refine Phrase.reached_of_step (by omega) fun n _ _ _ _ => ?_
  simp [Phrase.Given, literal, gives_bind_of (reached_scalar parses scalar)]

theorem element_starts {name : Text} {e : Expr} (label : Parses (.label name) c m)
    (value : Parses (.expression e) m d) : c.kindAt 0 ≠ .mark .rightBrace := by
  cases label with
  | noLabel => exact ne_of_starts value.expression_starts rfl
  | label next => simp [next]

theorem gives_primary_of_name {p : Primary} {n : Nat} (name : c.kindAt 0 = .name) :
    Gives (primary (n + 1)) c p d ↔ Gives (variablePrimary n) c p d := by
  simp [primary, name, readKind?]

theorem Phrase.Reached.given_reference {span : Span} {name : Text} {ts : List Tail}
    (reached : (Phrase.primary (.ref span name ts)).Reached c d) (n : Nat) (starts : c.kindAt 0 = .name)
    (enough : 16 * c.rest.length ≤ n) : Gives (variablePrimary n) c (.ref span name ts) d := by
  have given := reached.given_here (n + 1) trivial (by simp only [Phrase.spare]; omega)
  exact (gives_primary_of_name starts).mp given

theorem scalar_none {kind : Token.Kind} (next : c.kindAt 0 = kind)
    (other : kind ∈ [.mark .leftBracket, .mark .leftBrace, .keyword .funcWord]) :
    Gives scalar? c none c := by
  simp only [List.mem_cons, List.not_mem_nil, or_false] at other
  rcases other with rfl | rfl | rfl <;>
  · obtain ⟨t, rest, kind, -⟩ := c.rest_eq_of_kind next (by rintro ⟨⟩)
    simp [scalar?, rest, kind]

theorem reached_expression {x : Operand} {more : List (BinaryOp × Operand)}
    (first : Parses (.operand x) c m) (reachedFirst : (Phrase.operand x).Reached c m)
    (rest : (Phrase.operators more).Reached m d) :
    (Phrase.expression (.mk (c.spanTo d) (x :: more.map (·.2)) (more.map fun (op, _) => .known op))).Reached
      c d := by
  refine Phrase.reached_of_step (by simp [Phrase.spare]) fun n _ _ _ enough => ?_
  have shorter := first.length_le
  simp only [Phrase.spare, Phrase.least] at enough shorter
  have givenFirst := reachedFirst.given_here n trivial (by simp only [Phrase.spare]; omega)
  have givenRest := rest.given n trivial (by omega)
  simp [-bind_pure_comp, Phrase.Given, expression, gives_bind_of givenFirst, gives_bind_of givenRest,
    Cursor.spanTo]

theorem reached_operator {op : BinaryOp} {x : Operand} {more : List (BinaryOp × Operand)}
    (next : binaryOp? (c.kindAt 0) = some op) (right : Parses (.operand x) c.skip m)
    (reachedRight : (Phrase.operand x).Reached c.skip m) (rest : (Phrase.operators more).Reached m d) :
    (Phrase.operators ((op, x) :: more)).Reached c d := by
  refine Phrase.reached_of_step (by simp [Phrase.spare]) fun n _ _ _ enough => ?_
  have step := Cursor.length_step_of next rfl
  have shorter := right.length_le
  simp only [Phrase.spare, Phrase.least] at enough shorter
  have givenRight := reachedRight.given n trivial (by omega)
  have givenRest := rest.given n trivial (by omega)
  simp [-bind_pure_comp, Phrase.Given, moreOperands, next, gives_bind_of givenRight,
    gives_bind_of givenRest]

theorem reached_anotherExpression {e : Expr} {es : List Expr} (first : Parses (.expression e) c m)
    (reachedFirst : (Phrase.expression e).Reached c m) (next : m.kindAt 0 = .mark .comma)
    (rest : (Phrase.expressions es).Reached m.skip d) : (Phrase.expressions (e :: es)).Reached c d := by
  refine Phrase.reached_of_step (by simp [Phrase.spare]) fun n _ _ _ enough => ?_
  have shorter := first.length_le
  have step := Cursor.length_step next (by decide)
  simp only [Phrase.spare, Phrase.least] at enough shorter
  have givenFirst := reachedFirst.given_here n trivial (by simp only [Phrase.spare]; omega)
  have givenRest := rest.given n trivial (by omega)
  simp [-bind_pure_comp, Phrase.Given, expressionList, next, gives_bind_of givenFirst,
    gives_bind_of givenRest]

theorem reached_operand {op : Option (Word UnaryOp)} {p : Primary} {t : Option (Word TypeName)}
    {a b : Cursor} (sign : Parses (.sign op) c a) (inner : (Phrase.primary p).Reached a b)
    (test : Parses (.test t) b d) : (Phrase.operand (.mk (c.spanTo d) op p t)).Reached c d := by
  refine Phrase.reached_of_step (by simp [Phrase.spare]) fun n _ _ _ enough => ?_
  have shorter := sign.length_le
  simp only [Phrase.spare, Phrase.least] at enough shorter
  have givenInner := inner.given_here n trivial (by simp only [Phrase.spare]; omega)
  simp [-bind_pure_comp, Phrase.Given, operand, gives_bind_of (reached_sign sign),
    gives_bind_of givenInner, gives_bind_of (reached_test test), Cursor.spanTo]

theorem reached_reference {ts : List Tail} (next : c.kindAt 0 = .name)
    (tails : (Phrase.tails ts).Reached c.skip d) :
    (Phrase.primary (.ref (c.spanTo d) c.value ts)).Reached c d := by
  have step := Cursor.length_step next (by decide)
  refine Phrase.reached_of_steps (by omega) fun n _ _ _ enough => ?_
  simp only [Phrase.spare] at enough
  have givenTails := tails.given n trivial (by omega)
  simp [-bind_pure_comp, Phrase.Given, primary, next, readKind?, variablePrimary,
    gives_bind_of givenTails, Cursor.spanTo]

theorem reached_paren {e : Expr} (left : c.kindAt 0 = .mark .leftParen)
    (inner : (Phrase.expression e).Reached c.skip m) (right : m.kindAt 0 = .mark .rightParen) :
    (Phrase.primary (.paren (c.spanTo m.skip) e)).Reached c m.skip := by
  refine Phrase.reached_of_step (by simp [Phrase.spare]) fun n _ _ _ enough => ?_
  have step := Cursor.length_step left (by decide)
  simp only [Phrase.spare] at enough
  have givenInner := inner.given n trivial (by omega)
  simp [-bind_pure_comp, Phrase.Given, primary, left, readKind?, gives_bind_of givenInner, right,
    Cursor.spanTo]

theorem reached_constant {l : Literal} (value : Parses (.literal l) c d)
    (reachedValue : (Phrase.literal l).Reached c d) :
    (Phrase.primary (.literal (c.spanTo d) l)).Reached c d := by
  refine Phrase.reached_of_step (by simp [Phrase.spare]) fun n _ _ _ enough => ?_
  have others : ∀ kind ∈ literalStarts, readKind? kind = none ∧ kind ≠ .name ∧ kind ≠ .mark .leftParen := by
    decide
  obtain ⟨read, name, paren⟩ := others _ value.literal_starts
  simp only [Phrase.spare] at enough
  have givenValue := reachedValue.given_here n trivial (by simp only [Phrase.spare]; omega)
  simp [-bind_pure_comp, Phrase.Given, primary, read, name, paren, gives_bind_of givenValue,
    Cursor.spanTo]

theorem reached_anotherTail {t : Tail} {ts : List Tail} (first : Parses (.tail t) c m)
    (reachedFirst : (Phrase.tail t).Reached c m) (rest : (Phrase.tails ts).Reached m d) :
    (Phrase.tails (t :: ts)).Reached c d := by
  refine Phrase.reached_of_step (by simp [Phrase.spare]) fun n _ _ _ enough => ?_
  have shorter := first.length_le
  simp only [Phrase.spare, Phrase.least] at enough shorter
  have givenFirst := reachedFirst.given_here n trivial (by simp only [Phrase.spare]; omega)
  have givenRest := rest.given n trivial (by omega)
  simp [-bind_pure_comp, Phrase.Given, tails, gives_bind_of givenFirst, gives_bind_of givenRest]

theorem reached_index {i : Int64} (dot : c.kindAt 0 = .mark .dot) (next : c.skip.kindAt 0 = .integer)
    (value : integerValue? c.skip.value = some i) :
    (Phrase.tail (.index (c.spanTo c.skip.skip) i)).Reached c c.skip.skip := by
  have step := Cursor.length_step dot (by decide)
  refine Phrase.reached_of_step (by omega) fun n _ _ _ _ => ?_
  obtain ⟨t, rest, kind, same⟩ := Cursor.rest_eq_of_kind next (by rintro ⟨⟩)
  simp [-bind_pure_comp, Phrase.Given, tail?, dot, selector, rest, kind, same, value, Cursor.spanTo]

theorem reached_field (dot : c.kindAt 0 = .mark .dot) (next : c.skip.kindAt 0 = .name) :
    (Phrase.tail (.field (c.spanTo c.skip.skip) c.skip.value)).Reached c c.skip.skip := by
  have step := Cursor.length_step dot (by decide)
  refine Phrase.reached_of_step (by omega) fun n _ _ _ _ => ?_
  obtain ⟨t, rest, kind, same⟩ := Cursor.rest_eq_of_kind next (by rintro ⟨⟩)
  simp [-bind_pure_comp, Phrase.Given, tail?, dot, selector, rest, kind, same, Cursor.spanTo]

theorem reached_subscript {e : Expr} (left : c.kindAt 0 = .mark .leftBracket)
    (key : (Phrase.expression e).Reached c.skip m) (right : m.kindAt 0 = .mark .rightBracket) :
    (Phrase.tail (.subscript (c.spanTo m.skip) e)).Reached c m.skip := by
  have step := Cursor.length_step left (by decide)
  refine Phrase.reached_of_step (by omega) fun n _ _ _ enough => ?_
  simp only [Phrase.spare] at enough
  have givenKey := key.given n trivial (by omega)
  simp [-bind_pure_comp, Phrase.Given, tail?, left, right, gives_bind_of givenKey, Cursor.spanTo]

theorem reached_call {es : List Expr} (left : c.kindAt 0 = .mark .leftParen)
    (arguments : Parses (.expressions es) c.skip m)
    (reachedArguments : (Phrase.expressions es).Reached c.skip m) (right : m.kindAt 0 = .mark .rightParen) :
    (Phrase.tail (.call (c.spanTo m.skip) es)).Reached c m.skip := by
  have step := Cursor.length_step left (by decide)
  refine Phrase.reached_of_step (by omega) fun n _ _ _ enough => ?_
  have some : _ ≠ Token.Kind.mark .rightParen := ne_of_starts arguments.expressions_starts rfl
  simp only [Phrase.spare] at enough
  have givenArguments := reachedArguments.given n trivial (by omega)
  simp [-bind_pure_comp, Phrase.Given, tail?, left, right, some, gives_bind_of givenArguments,
    Cursor.spanTo]

theorem reached_emptyArray (left : c.kindAt 0 = .mark .leftBracket)
    (right : c.skip.kindAt 0 = .mark .rightBracket) :
    (Phrase.literal (.array (c.spanTo c.skip.skip) [])).Reached c c.skip.skip := by
  have step := Cursor.length_step left (by decide)
  refine Phrase.reached_of_step (by omega) fun n _ _ _ _ => ?_
  simp [-bind_pure_comp, Phrase.Given, literal, gives_bind_of (scalar_none left (by simp)), left, right,
    Cursor.spanTo]

theorem reached_array {es : List Expr} (left : c.kindAt 0 = .mark .leftBracket)
    (elements : Parses (.expressions es) c.skip m)
    (reachedElements : (Phrase.expressions es).Reached c.skip m) (right : m.kindAt 0 = .mark .rightBracket) :
    (Phrase.literal (.array (c.spanTo m.skip) es)).Reached c m.skip := by
  have step := Cursor.length_step left (by decide)
  refine Phrase.reached_of_step (by omega) fun n _ _ _ enough => ?_
  have some : _ ≠ Token.Kind.mark .rightBracket := ne_of_starts elements.expressions_starts rfl
  simp only [Phrase.spare] at enough
  have givenElements := reachedElements.given n trivial (by omega)
  simp [-bind_pure_comp, Phrase.Given, literal, gives_bind_of (scalar_none left (by simp)), left, right,
    some, gives_bind_of givenElements, Cursor.spanTo]

theorem reached_tuple {es : List Element} (left : c.kindAt 0 = .mark .leftBrace)
    (elements : (Phrase.elements es).Reached c.skip m) (right : m.kindAt 0 = .mark .rightBrace) :
    (Phrase.literal (.tuple (c.spanTo m.skip) es)).Reached c m.skip := by
  have step := Cursor.length_step left (by decide)
  refine Phrase.reached_of_step (by omega) fun n _ _ _ enough => ?_
  simp only [Phrase.spare] at enough
  have givenElements := elements.given n trivial (by omega)
  simp [-bind_pure_comp, Phrase.Given, literal, gives_bind_of (scalar_none left (by simp)), left, right,
    gives_bind_of givenElements, Cursor.spanTo]

theorem reached_function {xs : List Text} {b : Body} {a : Cursor} (word : c.kindAt 0 = .keyword .funcWord)
    (params : Parses (.parameters xs) c.skip a) (reachedParams : (Phrase.parameters xs).Reached c.skip a)
    (opening : a.kindAt 0 = .keyword .isWord) (inner : (Phrase.body b).Reached a.skip m)
    (closing : m.kindAt 0 = .keyword .endWord) :
    (Phrase.literal (.function (c.spanTo m.skip) xs b)).Reached c m.skip := by
  have step := Cursor.length_step word (by decide)
  have opened := Cursor.length_step opening (by decide)
  have shorter := params.length_le
  refine Phrase.reached_of_steps (by omega) fun n _ _ _ enough => ?_
  simp only [Phrase.spare, Phrase.least] at enough shorter
  have given := inner.enclosed n [.keyword .endWord] (by decide) (by simp [closing]) (by omega)
  have givenParams := reachedParams.given n trivial (by omega)
  simp [-bind_pure_comp, Phrase.Given, literal, gives_bind_of (scalar_none word (by simp)), word,
    functionLiteral, gives_bind_of givenParams, opening, gives_bind_of given, closing, Cursor.spanTo]

theorem reached_lambda {xs : List Text} {e : Expr} {a : Cursor} (word : c.kindAt 0 = .keyword .funcWord)
    (params : Parses (.parameters xs) c.skip a) (reachedParams : (Phrase.parameters xs).Reached c.skip a)
    (arrow : a.kindAt 0 = .mark .arrow) (result : (Phrase.expression e).Reached a.skip d) :
    (Phrase.literal (.lambda (c.spanTo d) xs e)).Reached c d := by
  have step := Cursor.length_step word (by decide)
  have opened := Cursor.length_step arrow (by decide)
  have shorter := params.length_le
  refine Phrase.reached_of_steps (by omega) fun n _ _ _ enough => ?_
  simp only [Phrase.spare, Phrase.least] at enough shorter
  have givenParams := reachedParams.given n trivial (by omega)
  have givenResult := result.given n trivial (by omega)
  simp [-bind_pure_comp, Phrase.Given, literal, gives_bind_of (scalar_none word (by simp)), word,
    functionLiteral, gives_bind_of givenParams, arrow, gives_bind_of givenResult, Cursor.spanTo]

theorem reached_lastElement {name : Text} {e : Expr} (label : Parses (.label name) c m)
    (value : Parses (.expression e) m d) (reachedValue : (Phrase.expression e).Reached m d)
    (next : d.kindAt 0 ≠ .mark .comma) : (Phrase.elements [.mk (c.spanTo d) name e]).Reached c d := by
  refine Phrase.reached_of_step (by simp [Phrase.spare]) fun n _ _ _ enough => ?_
  have shorter := label.length_le
  have some := element_starts label value
  simp only [Phrase.spare, Phrase.least] at enough shorter
  have givenValue := reachedValue.given_here n trivial (by simp only [Phrase.spare]; omega)
  simp [-bind_pure_comp, Phrase.Given, tupleElements, some, gives_bind_of (reached_label label),
    gives_bind_of givenValue, next, Cursor.spanTo]

theorem reached_anotherElement {name : Text} {e : Expr} {es : List Element} {a : Cursor}
    (label : Parses (.label name) c a) (value : Parses (.expression e) a m)
    (reachedValue : (Phrase.expression e).Reached a m) (next : m.kindAt 0 = .mark .comma)
    (rest : (Phrase.elements es).Reached m.skip d) :
    (Phrase.elements (.mk (c.spanTo m) name e :: es)).Reached c d := by
  refine Phrase.reached_of_step (by simp [Phrase.spare]) fun n _ _ _ enough => ?_
  have shorter := label.length_le
  have shorter' := value.length_le
  have step := Cursor.length_step next (by decide)
  have some := element_starts label value
  simp only [Phrase.spare, Phrase.least] at enough shorter shorter'
  have givenValue := reachedValue.given_here n trivial (by simp only [Phrase.spare]; omega)
  have givenRest := rest.given n trivial (by omega)
  simp [-bind_pure_comp, Phrase.Given, tupleElements, some, gives_bind_of (reached_label label),
    gives_bind_of givenValue, next, gives_bind_of givenRest, Cursor.spanTo]

theorem reached_anotherName {xs : List Text} (name : c.kindAt 0 = .name)
    (next : c.skip.kindAt 0 = .mark .comma) (rest : (Phrase.names xs).Reached c.skip.skip d) :
    (Phrase.names (c.value :: xs)).Reached c d := by
  refine Phrase.reached_of_step (by simp [Phrase.spare]) fun n _ _ _ enough => ?_
  have step := Cursor.length_step name (by decide)
  have step' := Cursor.length_step next (by decide)
  simp only [Phrase.spare] at enough
  have givenRest := rest.given n trivial (by omega)
  simp [-bind_pure_comp, Phrase.Given, parameterNames, name, next, gives_bind_of givenRest]

theorem reached_parameters {xs : List Text} (left : c.kindAt 0 = .mark .leftParen)
    (names : (Phrase.names xs).Reached c.skip m) (right : m.kindAt 0 = .mark .rightParen) :
    (Phrase.parameters xs).Reached c m.skip := by
  intro n _ _ _ enough
  have step := Cursor.length_step left (by decide)
  simp only [Phrase.spare] at enough
  have givenNames := names.given n trivial (by omega)
  simp [-bind_pure_comp, Phrase.Given, parameters, left, gives_bind_of givenNames, right]

theorem reached_noStatement (next : c.kindAt 0 ∈ closers) : (Phrase.statements []).Reached c c := by
  refine Phrase.reached_of_step (by simp [Phrase.spare]) fun n closing _ closed _ => ?_
  have other : ∀ kind ∈ closers, kind ≠ .mark .semicolon := by decide
  simp only [Phrase.Closed] at closed
  simp [Phrase.Given, statements, other _ next, closed]

theorem reached_semicolon {ss : List Statement} (next : c.kindAt 0 = .mark .semicolon)
    (rest : (Phrase.statements ss).Reached c.skip d) : (Phrase.statements ss).Reached c d := by
  refine Phrase.reached_of_step (by simp [Phrase.spare]) fun n closing within closed enough => ?_
  have step := Cursor.length_step next (by decide)
  simp only [Phrase.spare] at enough
  have given := rest n closing within closed (by simp only [Phrase.spare]; omega)
  simpa [Phrase.Given, statements, next] using given

theorem reached_anotherStatement {s ss : List Statement} (first : Parses (.statement s) c m)
    (reachedFirst : (Phrase.statement s).Reached c m) (rest : (Phrase.statements ss).Reached m d) :
    (Phrase.statements (s ++ ss)).Reached c d := by
  refine Phrase.reached_of_step (by simp [Phrase.spare]) fun n closing within closed enough => ?_
  have shorter := first.length_le
  simp only [Phrase.spare, Phrase.least] at enough shorter
  have given := rest n closing within closed (by simp only [Phrase.spare]; omega)
  have starts := first.statement_starts
  have going : _ ∉ closing := fun closed => starts (List.mem_cons_of_mem _ (within closed))
  simp only [closers, List.mem_cons, not_or] at starts
  have givenFirst := reachedFirst.given_here n trivial (by simp only [Phrase.spare]; omega)
  simp [-bind_pure_comp, Phrase.Given, statements, starts, going, gives_bind_of givenFirst,
    gives_bind_of given]

theorem reached_body {ss : List Statement} (inner : (Phrase.statements ss).Reached c d) :
    (Phrase.body (.mk (if ss.isEmpty then c.nextSpan else c.spanTo d) ss false)).Reached c d := by
  refine Phrase.reached_of_step (by simp [Phrase.spare]) fun n closing within closed enough => ?_
  simp only [Phrase.spare] at enough
  have given := inner n closing within closed (by simp only [Phrase.spare]; omega)
  cases ss <;> simp [-bind_pure_comp, Phrase.Given, body, gives_bind_of given, Cursor.spanTo]

theorem reached_declare {ss : List Statement} (word : c.kindAt 0 = .keyword .varWord)
    (inner : (Phrase.declarations ss).Reached c.skip d) : (Phrase.statement ss).Reached c d := by
  refine Phrase.reached_of_step (by simp [Phrase.spare]) fun n _ _ _ enough => ?_
  have step := Cursor.length_step word (by decide)
  simp only [Phrase.spare] at enough
  have given := inner.given n trivial (by omega)
  simpa [Phrase.Given, statement, word] using given

theorem reached_branch {e : Expr} {yes : Body} {a : Cursor} (word : c.kindAt 0 = .keyword .ifWord)
    (condition : Parses (.expression e) c.skip a)
    (reachedCondition : (Phrase.expression e).Reached c.skip a) (opening : a.kindAt 0 = .keyword .thenWord)
    (inner : (Phrase.body yes).Reached a.skip m) (closing : m.kindAt 0 = .keyword .endWord) :
    (Phrase.statement [.branch (c.spanTo m.skip) e yes .missing]).Reached c m.skip := by
  refine Phrase.reached_of_steps (by simp [Phrase.spare]) fun n _ _ _ enough => ?_
  have step := Cursor.length_step word (by decide)
  have shorter := condition.length_le
  have opened := Cursor.length_step opening (by decide)
  simp only [Phrase.spare, Phrase.least] at enough shorter
  have given := inner.enclosed n [.keyword .elseWord, .keyword .endWord] (by decide) (by simp [closing])
    (by omega)
  have givenCondition := reachedCondition.given n trivial (by omega)
  simp [-bind_pure_comp, Phrase.Given, statement, word, branch, gives_bind_of givenCondition, opening,
    gives_bind_of given, closing, Cursor.spanTo]

theorem reached_branches {e : Expr} {yes no : Body} {a b : Cursor} (word : c.kindAt 0 = .keyword .ifWord)
    (condition : Parses (.expression e) c.skip a)
    (reachedCondition : (Phrase.expression e).Reached c.skip a) (opening : a.kindAt 0 = .keyword .thenWord)
    (inner : Parses (.body yes) a.skip b) (reachedInner : (Phrase.body yes).Reached a.skip b)
    (otherwise : b.kindAt 0 = .keyword .elseWord) (other : (Phrase.body no).Reached b.skip m)
    (closing : m.kindAt 0 = .keyword .endWord) :
    (Phrase.statement [.branch (c.spanTo m.skip) e yes no]).Reached c m.skip := by
  refine Phrase.reached_of_steps (by simp [Phrase.spare]) fun n _ _ _ enough => ?_
  have step := Cursor.length_step word (by decide)
  have shorter := condition.length_le
  have opened := Cursor.length_step opening (by decide)
  have shorter' := inner.length_le
  have opened' := Cursor.length_step otherwise (by decide)
  simp only [Phrase.spare, Phrase.least] at enough shorter shorter'
  have given := reachedInner.enclosed n [.keyword .elseWord, .keyword .endWord] (by decide)
    (by simp [otherwise]) (by omega)
  have given' := other.enclosed n [.keyword .endWord] (by decide) (by simp [closing]) (by omega)
  have givenCondition := reachedCondition.given n trivial (by omega)
  simp [-bind_pure_comp, Phrase.Given, statement, word, branch, gives_bind_of givenCondition, opening,
    gives_bind_of given, otherwise, gives_bind_of given', closing, Cursor.spanTo]

theorem reached_forLoop {low high : Expr} {inner : Body} {l h : Cursor}
    (word : c.kindAt 0 = .keyword .forWord) (counter : c.skip.kindAt 0 = .name)
    (range : c.skip.skip.kindAt 0 = .keyword .inWord) (first : Parses (.expression low) c.skip.skip.skip l)
    (reachedFirst : (Phrase.expression low).Reached c.skip.skip.skip l) (dots : l.kindAt 0 = .mark .dotDot)
    (last : Parses (.expression high) l.skip h) (reachedLast : (Phrase.expression high).Reached l.skip h)
    (opening : h.kindAt 0 = .keyword .loopWord) (repeated : (Phrase.body inner).Reached h.skip m)
    (closing : m.kindAt 0 = .keyword .endWord) :
    (Phrase.statement [.forLoop (c.spanTo m.skip) c.skip.value low high inner]).Reached c m.skip := by
  refine Phrase.reached_of_steps (by simp [Phrase.spare]) fun n _ _ _ enough => ?_
  have step := Cursor.length_step word (by decide)
  have named := Cursor.length_step counter (by decide)
  have ranged := Cursor.length_step range (by decide)
  have shorter := first.length_le
  have dotted := Cursor.length_step dots (by decide)
  have shorter' := last.length_le
  have opened := Cursor.length_step opening (by decide)
  simp only [Phrase.spare, Phrase.least] at enough shorter shorter'
  have given := repeated.enclosed n [.keyword .endWord] (by decide) (by simp [closing]) (by omega)
  have givenFirst := reachedFirst.given n trivial (by omega)
  have givenLast := reachedLast.given n trivial (by omega)
  simp [-bind_pure_comp, Phrase.Given, statement, word, forLoop, counter, range, gives_bind_of givenFirst,
    dots, gives_bind_of givenLast, opening, gives_bind_of given, closing, Cursor.spanTo]

theorem reached_whileLoop {e : Expr} {inner : Body} {a : Cursor} (word : c.kindAt 0 = .keyword .whileWord)
    (condition : Parses (.expression e) c.skip a)
    (reachedCondition : (Phrase.expression e).Reached c.skip a) (opening : a.kindAt 0 = .keyword .loopWord)
    (repeated : (Phrase.body inner).Reached a.skip m) (closing : m.kindAt 0 = .keyword .endWord) :
    (Phrase.statement [.whileLoop (c.spanTo m.skip) e inner]).Reached c m.skip := by
  refine Phrase.reached_of_steps (by simp [Phrase.spare]) fun n _ _ _ enough => ?_
  have step := Cursor.length_step word (by decide)
  have shorter := condition.length_le
  have opened := Cursor.length_step opening (by decide)
  simp only [Phrase.spare, Phrase.least] at enough shorter
  have given := repeated.enclosed n [.keyword .endWord] (by decide) (by simp [closing]) (by omega)
  have givenCondition := reachedCondition.given n trivial (by omega)
  simp [-bind_pure_comp, Phrase.Given, statement, word, whileLoop, gives_bind_of givenCondition, opening,
    gives_bind_of given, closing, Cursor.spanTo]

theorem reached_print {es : List Expr} (word : c.kindAt 0 = .keyword .printWord)
    (arguments : (Phrase.expressions es).Reached c.skip d) :
    (Phrase.statement [.print (c.spanTo d) es]).Reached c d := by
  refine Phrase.reached_of_step (by simp [Phrase.spare]) fun n _ _ _ enough => ?_
  have step := Cursor.length_step word (by decide)
  simp only [Phrase.spare] at enough
  have givenArguments := arguments.given n trivial (by omega)
  simp [-bind_pure_comp, Phrase.Given, statement, word, gives_bind_of givenArguments, Cursor.spanTo]

theorem reached_retValue {e : Expr} (word : c.kindAt 0 = .keyword .returnWord)
    (value : Parses (.expression e) c.skip d) (reachedValue : (Phrase.expression e).Reached c.skip d) :
    (Phrase.statement [.ret (c.spanTo d) e]).Reached c d := by
  refine Phrase.reached_of_step (by simp [Phrase.spare]) fun n _ _ _ enough => ?_
  have step := Cursor.length_step word (by decide)
  simp only [Phrase.spare] at enough
  have givenValue := reachedValue.given n trivial (by omega)
  simp [-bind_pure_comp, Phrase.Given, statement, word, value.expression_starts, gives_bind_of givenValue,
    Cursor.spanTo]

theorem reached_assign {span : Span} {name : Text} {ts : List Tail} {op : AssignOp} {e : Expr}
    (target : Parses (.primary (.ref span name ts)) c m)
    (reachedTarget : (Phrase.primary (.ref span name ts)).Reached c m)
    (next : assignOp? (m.kindAt 0) = some op) (value : (Phrase.expression e).Reached m.skip d) :
    (Phrase.statement [.assign (c.spanTo d) (.ref span name ts) (some (.known op)) e]).Reached c d := by
  refine Phrase.reached_of_steps (by simp [Phrase.spare]) fun n _ _ _ enough => ?_
  have step := Cursor.length_step_of next rfl
  have shorter := target.length_le
  have starts := target.reference_starts
  simp only [Phrase.spare, Phrase.least] at enough shorter
  have givenTarget := reachedTarget.given_reference n starts (by omega)
  have givenValue := value.given n trivial (by omega)
  simp [-bind_pure_comp, Phrase.Given, statement, starts, assignment, gives_bind_of givenTarget, next,
    gives_bind_of givenValue, Cursor.spanTo]

theorem reached_effect {span : Span} {name : Text} {ts : List Tail}
    (target : Parses (.primary (.ref span name ts)) c d)
    (reachedTarget : (Phrase.primary (.ref span name ts)).Reached c d)
    (next : assignOp? (d.kindAt 0) = none) (last : endsInCall ts) :
    (Phrase.statement [.assign (c.spanTo d) (.ref span name ts) none .missing]).Reached c d := by
  refine Phrase.reached_of_steps (by simp [Phrase.spare]) fun n _ _ _ enough => ?_
  have shorter := target.length_le
  have starts := target.reference_starts
  simp only [Phrase.spare, Phrase.least] at enough shorter
  have givenTarget := reachedTarget.given_reference n starts (by omega)
  simp [-bind_pure_comp, Phrase.Given, statement, starts, assignment, gives_bind_of givenTarget, next, last,
    Cursor.spanTo]

theorem reached_initial {e : Expr} (next : c.kindAt 0 = .mark .assign)
    (value : (Phrase.expression e).Reached c.skip d) : (Phrase.initial e).Reached c d := by
  intro n _ _ _ enough
  have step := Cursor.length_step next (by decide)
  simp only [Phrase.spare] at enough
  have given := value.given n trivial (by omega)
  simpa [Phrase.Given, next] using given

theorem reached_lastDeclaration {e : Expr} (name : c.kindAt 0 = .name)
    (initial : Parses (.initial e) c.skip d) (reachedInitial : (Phrase.initial e).Reached c.skip d)
    (next : ¬ (d.kindAt 0 = .mark .comma ∧ d.skip.kindAt 0 = .name)) :
    (Phrase.declarations [.declare (c.spanTo d) c.value e]).Reached c d := by
  have step := Cursor.length_step name (by decide)
  refine Phrase.reached_of_step (by omega) fun n _ _ _ enough => ?_
  simp only [Phrase.spare] at enough
  have given := reachedInitial.given n trivial (by omega)
  cases initial with
  | noInitial assign =>
    simp [-bind_pure_comp, Phrase.Given, declarations, name, assign, Cursor.kindAt_one, next,
      Cursor.spanTo]
  | initial assign =>
    rw [Phrase.Given, gives_accept, if_pos assign, if_pos rfl] at given
    simp [-bind_pure_comp, Phrase.Given, declarations, name, assign, gives_bind_of given,
      Cursor.kindAt_one, next, Cursor.spanTo]

theorem reached_anotherDeclaration {e : Expr} {ss : List Statement} (name : c.kindAt 0 = .name)
    (initial : Parses (.initial e) c.skip m) (reachedInitial : (Phrase.initial e).Reached c.skip m)
    (next : m.kindAt 0 = .mark .comma) (rest : Parses (.declarations ss) m.skip d)
    (reachedRest : (Phrase.declarations ss).Reached m.skip d) :
    (Phrase.declarations (.declare (c.spanTo m) c.value e :: ss)).Reached c d := by
  have step := Cursor.length_step name (by decide)
  have shorter := initial.length_le
  have step' := Cursor.length_step next (by decide)
  refine Phrase.reached_of_step (by omega) fun n _ _ _ enough => ?_
  simp only [Phrase.spare, Phrase.least] at enough shorter
  have given := reachedInitial.given n trivial (by omega)
  cases initial with
  | noInitial assign =>
    have givenRest := reachedRest.given n trivial (by omega)
    simp [-bind_pure_comp, Phrase.Given, declarations, name, Cursor.kindAt_one, next,
      rest.declarations_starts, gives_bind_of givenRest, Cursor.spanTo]
  | initial assign =>
    rw [Phrase.Given, gives_accept, if_pos assign, if_pos rfl] at given
    have givenRest := reachedRest.given n trivial (by omega)
    simp [-bind_pure_comp, Phrase.Given, declarations, name, assign, gives_bind_of given,
      Cursor.kindAt_one, next, rest.declarations_starts, gives_bind_of givenRest, Cursor.spanTo]

/-- What the rules read, the parser reads, by induction on the derivation. Each token that a phrase takes
leaves sixteen more steps for the phrases after it; a phrase in front of which no token was taken has a
step to spare for itself. -/
theorem reached_of_parses (parses : Parses ph c d) : ph.Reached c d := by
  induction parses with
  | expression first rest ihFirst ihRest => exact reached_expression first ihFirst ihRest
  | noOperator next =>
    refine Phrase.reached_of_step (by simp [Phrase.spare]) fun n _ _ _ _ => ?_
    simp [Phrase.Given, moreOperands, next]
  | operator next right rest ihRight ihRest => exact reached_operator next right ihRight ihRest
  | lastExpression last next ihLast =>
    refine Phrase.reached_of_step (by simp [Phrase.spare]) fun n _ _ _ enough => ?_
    simp only [Phrase.spare] at enough
    have given := ihLast.given_here n trivial (by simp only [Phrase.spare]; omega)
    simp [-bind_pure_comp, Phrase.Given, expressionList, next, gives_bind_of given]
  | anotherExpression first next rest ihFirst ihRest =>
    exact reached_anotherExpression first ihFirst next ihRest
  | operand sign inner test _ ihInner _ => exact reached_operand sign ihInner test
  | noSign next => exact fun _ _ _ _ _ => reached_sign (.noSign next)
  | sign next => exact fun _ _ _ _ _ => reached_sign (.sign next)
  | noTest next => exact fun _ _ _ _ _ => reached_test (.noTest next)
  | wordTest next word => exact fun _ _ _ _ _ => reached_test (.wordTest next word)
  | arrayTest next left right => exact fun _ _ _ _ _ => reached_test (.arrayTest next left right)
  | tupleTest next left right => exact fun _ _ _ _ _ => reached_test (.tupleTest next left right)
  | read next =>
    refine Phrase.reached_of_step (by simp [Phrase.spare]) fun n _ _ _ _ => ?_
    simp [-bind_pure_comp, Phrase.Given, primary, next]
  | reference next tails ihTails => exact reached_reference next ihTails
  | paren left inner right ihInner => exact reached_paren left ihInner right
  | constant value ihValue => exact reached_constant value ihValue
  | noTail dot bracket paren =>
    refine Phrase.reached_of_steps (by simp [Phrase.spare]) fun n _ _ _ _ => ?_
    simp [Phrase.Given, tails, tail?, dot, bracket, paren]
  | anotherTail first rest ihFirst ihRest => exact reached_anotherTail first ihFirst ihRest
  | index dot next value => exact reached_index dot next value
  | field dot next => exact reached_field dot next
  | subscript left key right ihKey => exact reached_subscript left ihKey right
  | emptyCall left right =>
    have step := Cursor.length_step left (by decide)
    refine Phrase.reached_of_step (by omega) fun n _ _ _ _ => ?_
    simp [-bind_pure_comp, Phrase.Given, tail?, left, right, Cursor.spanTo]
  | call left arguments right ihArguments => exact reached_call left arguments ihArguments right
  | integer next value => exact reached_scalarLiteral rfl (.integer next value)
  | real next value => exact reached_scalarLiteral rfl (.real next value)
  | string next => exact reached_scalarLiteral rfl (.string next)
  | trueWord next => exact reached_scalarLiteral rfl (.trueWord next)
  | falseWord next => exact reached_scalarLiteral rfl (.falseWord next)
  | emptyWord next => exact reached_scalarLiteral rfl (.emptyWord next)
  | emptyArray left right => exact reached_emptyArray left right
  | array left elements right ihElements => exact reached_array left elements ihElements right
  | tuple left elements right ihElements => exact reached_tuple left ihElements right
  | function word params opening inner closing ihParams ihInner =>
    exact reached_function word params ihParams opening ihInner closing
  | lambda word params arrow result ihParams ihResult =>
    exact reached_lambda word params ihParams arrow ihResult
  | noLabel next => exact fun _ _ _ _ _ => reached_label (.noLabel next)
  | label next assign => exact fun _ _ _ _ _ => reached_label (.label next assign)
  | noElement next =>
    refine Phrase.reached_of_step (by simp [Phrase.spare]) fun n _ _ _ _ => ?_
    simp [Phrase.Given, tupleElements, next]
  | lastElement label value next _ ihValue => exact reached_lastElement label value ihValue next
  | anotherElement label value next rest _ ihValue ihRest =>
    exact reached_anotherElement label value ihValue next ihRest
  | noName next =>
    refine Phrase.reached_of_step (by simp [Phrase.spare]) fun n _ _ _ _ => ?_
    simp [Phrase.Given, parameterNames, next]
  | lastName name next =>
    refine Phrase.reached_of_step (by simp [Phrase.spare]) fun n _ _ _ _ => ?_
    simp [-bind_pure_comp, Phrase.Given, parameterNames, name, next]
  | anotherName name next rest ihRest => exact reached_anotherName name next ihRest
  | noParameters next =>
    intro n _ _ _ _
    simp [Phrase.Given, parameters, next]
  | parameters left names right ihNames => exact reached_parameters left ihNames right
  | noStatement next => exact reached_noStatement next
  | semicolon next rest ihRest => exact reached_semicolon next ihRest
  | anotherStatement first rest ihFirst ihRest => exact reached_anotherStatement first ihFirst ihRest
  | body inner ihInner => exact reached_body ihInner
  | declare word inner ihInner => exact reached_declare word ihInner
  | branch word condition opening inner closing ihCondition ihInner =>
    exact reached_branch word condition ihCondition opening ihInner closing
  | branches word condition opening inner otherwise other closing ihCondition ihInner ihOther =>
    exact reached_branches word condition ihCondition opening inner ihInner otherwise ihOther closing
  | forLoop word counter range first dots last opening repeated closing ihFirst ihLast ihRepeated =>
    exact reached_forLoop word counter range first ihFirst dots last ihLast opening ihRepeated closing
  | whileLoop word condition opening repeated closing ihCondition ihRepeated =>
    exact reached_whileLoop word condition ihCondition opening ihRepeated closing
  | print word arguments ihArguments => exact reached_print word ihArguments
  | ret word next =>
    refine Phrase.reached_of_step (by simp [Phrase.spare]) fun n _ _ _ _ => ?_
    simp [-bind_pure_comp, Phrase.Given, statement, word, next, Cursor.spanTo]
  | retValue word value ihValue => exact reached_retValue word value ihValue
  | brk word =>
    refine Phrase.reached_of_step (by simp [Phrase.spare]) fun n _ _ _ _ => ?_
    simp [-bind_pure_comp, Phrase.Given, statement, word]
  | cont word =>
    refine Phrase.reached_of_step (by simp [Phrase.spare]) fun n _ _ _ _ => ?_
    simp [-bind_pure_comp, Phrase.Given, statement, word]
  | assign target next value ihTarget ihValue => exact reached_assign target ihTarget next ihValue
  | effect target next last ihTarget => exact reached_effect target ihTarget next last
  | noInitial next =>
    intro n _ _ _ _
    simp [Phrase.Given, next]
  | initial next value ihValue => exact reached_initial next ihValue
  | lastDeclaration name initial next ihInitial => exact reached_lastDeclaration name initial ihInitial next
  | anotherDeclaration name initial next rest ihInitial ihRest =>
    exact reached_anotherDeclaration name initial ihInitial next rest ihRest

end Reached

theorem closed_of_gives {n : Nat} {closing : List Token.Kind} {ss : List Statement} {c d : Cursor}
    (given : Gives (statements n closing) c ss d) : d.kindAt 0 ∈ closing := by
  induction n generalizing c ss with
  | zero => simp [statements] at given
  | succ n ih =>
    rw [statements] at given
    simp [-bind_pure_comp] at given
    split at given
    next => exact ih given
    next =>
    split at given
    next closed =>
      obtain ⟨-, rfl⟩ := given
      exact closed
    next =>
      obtain ⟨-, _, _, -, _, rest, -⟩ := given
      exact ih rest

/-- The parser accepts tokens, with a tree, exactly if the rules read that tree up to the end of input. -/
theorem parseTokens_eq_ok {ts : Lexer.Tokens} {p : Program} :
    parseTokens ts = .ok p ↔
      ∃ ss d, Parses (.statements ss) (.ofTokens ts) d ∧ d.kindAt 0 = .endOfInput ∧
        p = ⟨(Cursor.ofTokens ts).spanTo d, .mk ((Cursor.ofTokens ts).spanTo d) ss false⟩ := by
  have run : parseTokens ts = .ok p ↔
      ∃ d, Gives (program (16 * (ts.tokens.length + 1))) (.ofTokens ts) p d := by
    unfold parseTokens Gives
    split
    next q d given => simp [given]
    next e given => simp [given]
  rw [run]
  simp [-bind_pure_comp, program]
  constructor
  · rintro ⟨d, ss, given, rfl⟩
    have closed := closed_of_gives given
    exact ⟨ss, d, understood _ _ (Nat.lt_succ_self _) _ (by simp [closers]) (.statements ss) _ _ given,
      by simpa using closed, rfl⟩
  · rintro ⟨ss, d, parses, closed, rfl⟩
    refine ⟨d, ss, ?_, rfl⟩
    exact reached_of_parses parses _ [.endOfInput] (by simp [closers]) (by simpa [Phrase.Closed] using closed)
      (by simp only [Phrase.spare, Cursor.ofTokens]; omega)

end CellScript.Parser
