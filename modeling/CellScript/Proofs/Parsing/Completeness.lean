import CellScript.Proofs.Parsing.Spelling
import CellScript.Proofs.Text.Numerals

/-! The parser reads every tree that a source can spell from its spelling. What follows a phrase decides
where it ends: after an expression no operator may follow, after a name nothing that begins a tail, and
after an operand without a type test no `is`. -/
namespace CellScript.Parser

theorem kind_symbol (kind : Token.Kind) (value : Text) : (kind.symbol value).kind = kind := by
  cases kind <;> rfl

theorem Cursor.of_symbols {c : Cursor} {a : Symbol} {us : List Symbol} (shown : c.symbols = a :: us) :
    c.kindAt 0 = a.kind ∧ a.kind.symbol c.value = a ∧ c.skip.symbols = us := by
  have token : c.kindAt 0 ≠ .endOfInput := by
    intro stop
    rw [Cursor.symbols_of_stop stop] at shown
    cases shown
  rw [Cursor.symbols_step rfl token] at shown
  obtain ⟨rfl, rfl⟩ := List.cons.inj shown
  rw [kind_symbol]
  exact ⟨rfl, rfl, rfl⟩

/-- The kind of the first symbol. -/
def nextKind (us : List Symbol) : Token.Kind := (us.head?.map Symbol.kind).getD .endOfInput

theorem Cursor.kindAt_eq (c : Cursor) : c.kindAt 0 = nextKind c.symbols := by
  cases shown : c.symbols with
  | cons a us => exact (Cursor.of_symbols shown).1
  | nil =>
    by_contra other
    rw [Cursor.symbols_step rfl other] at shown
    cases shown

/-- No tail begins here. -/
def NoTail (us : List Symbol) : Prop :=
  nextKind us ∉ [.mark .dot, .mark .leftBracket, .mark .leftParen]

/-- An expression ends before these symbols; `tested` tells that its last operand has a type test. -/
structure Ends (tested : Bool) (us : List Symbol) : Prop where
  operator : binaryOp? (nextKind us) = none
  tail : NoTail us
  test : tested ∨ nextKind us ≠ .keyword .isWord

/-- From the symbols, with the others after them, a tree is read that has the given one's content. -/
def Recovers {τ : Type} (phrase : τ → Phrase) (content : τ → τ) (t : τ) (us vs : List Symbol) : Prop :=
  ∀ c : Cursor, c.symbols = us ++ vs →
    ∃ t' d, Parses (phrase t') c d ∧ d.symbols = vs ∧ content t' = content t

variable {decimal : Float → Text}

/-- The texts of the reals denote them. -/
def Readable (decimal : Float → Text) (xs : List Float) : Prop :=
  ∀ x ∈ xs, Real.read? (decimal x) = some x

theorem readable_append {xs ys : List Float} :
    Readable decimal (xs ++ ys) ↔ Readable decimal xs ∧ Readable decimal ys := List.forall_mem_append

section Words

theorem binaryOp?_symbol (op : BinaryOp) : binaryOp? op.symbol.kind = some op := by cases op <;> rfl

theorem unaryOp?_symbol (op : UnaryOp) : unaryOp? op.symbol.kind = some op := by cases op <;> rfl

theorem readKind?_symbol (k : ReadKind) : readKind? k.symbol.kind = some k := by cases k <;> rfl

theorem assignOp?_symbol (op : AssignOp) : assignOp? op.symbol.kind = some op := by cases op <;> rfl

theorem noTail_cons {a : Symbol} {us : List Symbol}
    (other : a.kind ∉ [.mark .dot, .mark .leftBracket, .mark .leftParen]) :
    NoTail (a :: us) := other

end Words

section Parts

variable {c d : Cursor} {us vs : List Symbol}

theorem recovers_sign {op : Word UnaryOp} (wellKnown : op.isKnown)
    (shown : c.symbols = Spelling.known (fun op => [op.symbol]) op ++ us) :
    ∃ d, Parses (.sign (some op)) c d ∧ d.symbols = us := by
  cases op with
  | known op =>
    obtain ⟨kind, -, rest⟩ := Cursor.of_symbols shown
    exact ⟨c.skip, .sign (by rw [kind, unaryOp?_symbol]), rest⟩
  | other => cases wellKnown

theorem recovers_test {test : Option (Word TypeName)} (wellKnown : test.all Word.isKnown)
    (shown : c.symbols =
      (test.map (Spelling.known fun t => .word .isWord :: t.symbols)).getD [] ++ us)
    (next : test.isSome ∨ nextKind us ≠ .keyword .isWord) :
    ∃ d, Parses (.test test) c d ∧ d.symbols = us := by
  match test with
  | none =>
    refine ⟨c, .noTest ?_, shown⟩
    rw [c.kindAt_eq, shown]
    exact next.resolve_left nofun
  | some (.other _ _) => cases wellKnown
  | some (.known t) =>
    obtain ⟨is, -, shown⟩ := Cursor.of_symbols shown
    cases t with
    | array | tuple =>
      obtain ⟨left, -, shown⟩ := Cursor.of_symbols shown
      obtain ⟨right, -, shown⟩ := Cursor.of_symbols shown
      first | exact ⟨_, .arrayTest is left right, shown⟩ | exact ⟨_, .tupleTest is left right, shown⟩
    | _ =>
      obtain ⟨word, -, shown⟩ := Cursor.of_symbols shown
      exact ⟨_, .wordTest is (by rw [word]; rfl), shown⟩

theorem Ends.of_tested {tested : Bool} (ends : Ends false us) : Ends tested us :=
  ⟨ends.operator, ends.tail, ends.test.imp_left nofun⟩

theorem ends_cons {tested : Bool} {a : Symbol} (operator : binaryOp? a.kind = none)
    (tail : a.kind ∉ [.mark .dot, .mark .leftBracket, .mark .leftParen]) (test : a.kind ≠ .keyword .isWord) :
    Ends tested (a :: us) :=
  ⟨operator, tail, .inr test⟩

theorem noTail_operator (op : BinaryOp) : NoTail (op.symbol :: us) := by
  cases op <;> exact noTail_cons (by decide)

theorem noTail_assign (op : AssignOp) : NoTail (op.symbol :: us) := by
  cases op <;> exact noTail_cons (by decide)

theorem nextKind_operator (op : BinaryOp) : nextKind (op.symbol :: us) ≠ .keyword .isWord := by
  cases op <;> nofun

theorem Parses.primary_unsigned {p : Primary} (parses : Parses (.primary p) c d) :
    unaryOp? (c.kindAt 0) = none := by
  cases parses with
  | read next =>
    revert next
    cases c.kindAt 0 with
    | keyword k => cases k <;> simp [readKind?, unaryOp?]
    | _ => simp [readKind?]
  | reference next => rw [next]; rfl
  | paren left => rw [left]; rfl
  | constant value =>
    have all : ∀ kind ∈ literalStarts, unaryOp? kind = none := by decide
    exact all _ value.literal_starts

/-- What follows an operand when the rest of its expression does. -/
theorem follows_operand {x : Operand} {xs : List Operand} {ops : List (Word BinaryOp)}
    (count : ops.length = xs.length) (wellKnown : ops.all Word.isKnown)
    (ends : Ends (lastTested (x :: xs)) vs) :
    NoTail (Spelling.operators decimal xs ops ++ vs) ∧
      (x.isTested ∨ nextKind (Spelling.operators decimal xs ops ++ vs) ≠ .keyword .isWord) ∧
      (xs.isEmpty → binaryOp? (nextKind (Spelling.operators decimal xs ops ++ vs)) = none) := by
  match xs, ops, count, wellKnown with
  | [], [], _, _ => exact ⟨ends.tail, ends.test, fun _ => ends.operator⟩
  | _ :: _, .known op :: _, _, _ =>
    exact ⟨noTail_operator op, .inr (nextKind_operator op), nofun⟩
  | _ :: _, .other _ _ :: _, _, wellKnown => simp [Word.isKnown] at wellKnown

theorem Cursor.of_name {name : Text} (shown : c.symbols = .name name :: us) :
    c.kindAt 0 = .name ∧ c.value = name ∧ c.skip.symbols = us := by
  obtain ⟨kind, value, rest⟩ := Cursor.of_symbols shown
  exact ⟨kind, by simpa [Symbol.kind, Token.Kind.symbol] using value, rest⟩

theorem recovers_names {xs : List Text} (next : nextKind vs = .mark .rightParen) :
    ∀ c : Cursor, c.symbols = Spelling.names xs ++ vs →
      ∃ d, Parses (.names xs) c d ∧ d.symbols = vs := by
  induction xs with
  | nil =>
    intro c shown
    exact ⟨c, .noName (by rw [c.kindAt_eq, shown]; exact next), shown⟩
  | cons x xs ih =>
    intro c shown
    obtain ⟨name, rfl, after⟩ := Cursor.of_name shown
    cases xs with
    | nil =>
      refine ⟨c.skip, .lastName name ?_, after⟩
      rw [c.skip.kindAt_eq, after]
      simp [next]
    | cons y ys =>
      obtain ⟨comma, -, after⟩ := Cursor.of_symbols after
      obtain ⟨d, rest, left⟩ := ih _ after
      exact ⟨d, .anotherName name comma rest, left⟩

/-- What follows the rest of an expression, when its first operand is taken off. -/
theorem ends_of_cons {x : Operand} {xs : List Operand} (ends : Ends (lastTested (x :: xs)) vs) :
    Ends (xs.isEmpty || lastTested xs) vs := by
  cases xs with
  | nil => exact ⟨ends.operator, ends.tail, .inl rfl⟩
  | cons y ys => simpa [lastTested] using ends

/-- What follows the primary of an operand: a type test, or what follows the operand. -/
theorem follows_primary {span : Span} {op : Option (Word UnaryOp)} {p : Primary}
    {test : Option (Word TypeName)} {isLast : Bool}
    (placed : (Operand.mk span op p test).placed true isLast) (testKnown : test.all Word.isKnown)
    (noTail : NoTail vs) (tested : test.isSome ∨ nextKind vs ≠ .keyword .isWord)
    (operator : isLast → binaryOp? (nextKind vs) = none) :
    NoTail ((test.map (Spelling.known fun t => .word .isWord :: t.symbols)).getD [] ++ vs) ∧
      ∀ r ∈ p.result?,
        Ends r.endsTested ((test.map (Spelling.known fun t => .word .isWord :: t.symbols)).getD [] ++ vs) := by
  match test, testKnown with
  | none, _ =>
    refine ⟨noTail, fun r result => ⟨operator ?_, noTail, .inr (tested.resolve_left nofun)⟩⟩
    simpa [Operand.placed, Option.mem_def.mp result] using placed
  | some (.known t), _ =>
    refine ⟨noTail_cons (by decide), fun r result => ⟨rfl, noTail_cons (by decide), .inl ?_⟩⟩
    simpa [Operand.placed, Option.mem_def.mp result] using placed

theorem recovers_sign? {op : Option (Word UnaryOp)} (wellKnown : op.all Word.isKnown)
    (shown : c.symbols = (op.map (Spelling.known fun op => [op.symbol])).getD [] ++ us) :
    ∃ a, a.symbols = us ∧ ∀ p b, Parses (.primary p) a b → Parses (.sign op) c a := by
  match op with
  | none => exact ⟨c, shown, fun p b parses => .noSign parses.primary_unsigned⟩
  | some op =>
    obtain ⟨d, parses, shown⟩ := recovers_sign wellKnown shown
    exact ⟨d, shown, fun _ _ _ => parses⟩

theorem integerValue?_of_symbol {i : Int64} {value : Text} (nonneg : 0 ≤ i.toInt)
    (shown : (Spelling.integer i).kind.symbol value = Spelling.integer i) :
    integerValue? value = some i := by
  have text : value = Text.ofNat i.toInt.toNat := by
    simpa [Spelling.integer, Symbol.kind, Token.Kind.symbol] using shown
  rw [text]
  exact integerValue?_ofNat nonneg

theorem recovers_parameters {xs : List Text}
    (shown : c.symbols = .mark .leftParen :: (Spelling.names xs ++ .mark .rightParen :: us)) :
    ∃ d, Parses (.parameters xs) c d ∧ d.symbols = us := by
  obtain ⟨left, -, shown⟩ := Cursor.of_symbols shown
  obtain ⟨m, names, shown⟩ := recovers_names rfl _ shown
  obtain ⟨right, -, shown⟩ := Cursor.of_symbols shown
  exact ⟨_, .parameters left names right, shown⟩

/-- A name with an assignment mark after it is no expression that ends before another token. -/
theorem Parses.expression_unlabelled {e : Expr} (parses : Parses (.expression e) c d)
    (next : d.kindAt 0 ≠ .mark .assign) :
    ¬ (c.kindAt 0 = .name ∧ c.skip.kindAt 0 = .mark .assign) := by
  rintro ⟨name, assign⟩
  cases parses with
  | expression first rest =>
  cases first with
  | operand sign inner test =>
  cases sign with
  | sign signed => rw [name] at signed; cases signed
  | noSign =>
  cases inner with
  | read kind => rw [name] at kind; cases kind
  | paren left => rw [name] at left; cases left
  | constant value =>
    have starts := value.literal_starts
    rw [name] at starts
    simp [literalStarts] at starts
  | reference _ tails =>
  cases tails with
  | anotherTail first =>
    cases first <;> simp_all
  | noTail =>
  cases test with
  | noTest =>
    cases rest with
    | noOperator => exact next assign
    | operator op => rw [assign] at op; cases op
  | _ => simp_all

theorem endsInCall_restamp (f : Span → Span) (ts : List Tail) :
    endsInCall (Restamp.tails f ts) = endsInCall ts := by
  induction ts with
  | nil => rfl
  | cons t ts ih =>
    cases ts with
    | nil => cases t <;> rfl
    | cons u us => simpa [endsInCall, Restamp.tails] using ih

theorem reference_of_restamp {f : Span → Span} {p : Primary} {span : Span} {name : Text} {ts : List Tail}
    (same : Restamp.primary f p = Restamp.primary f (.ref span name ts)) :
    ∃ span' name' ts', p = .ref span' name' ts' ∧ name' = name ∧
      Restamp.tails f ts' = Restamp.tails f ts := by
  cases p with
  | ref span' name' ts' =>
    simp only [Restamp.primary, Primary.ref.injEq] at same
    exact ⟨span', name', ts', rfl, same.2⟩
  | _ => simp [Restamp.primary] at same

end Parts

open Restamp (blank)

/-- An expression is recovered in front of anything that ends it. -/
def RecoversExpr (decimal : Float → Text) (e : Expr) : Prop :=
  ∀ vs, Ends e.endsTested vs → Recovers .expression (Restamp.expr blank) e (Spelling.expr decimal e) vs

/-- A body is recovered in front of anything that closes it. -/
def RecoversBody (decimal : Float → Text) (b : Body) : Prop :=
  ∀ vs, nextKind vs ∈ closers → Recovers .body (Restamp.body blank) b (Spelling.body decimal b) vs

/-- A statement is recovered in front of the semicolon after it. -/
def RecoversStatement (decimal : Float → Text) (s : Statement) : Prop :=
  ∀ vs, Recovers (fun s => .statement [s]) (Restamp.statement blank) s (Spelling.statement decimal s)
    (.mark .semicolon :: vs)

section Statements

variable {span span' : Span} {name : Text} {e low high : Expr} {b yes no : Body} {us : List Symbol} {a : Symbol}

theorem RecoversExpr.before (recovers : RecoversExpr decimal e) (c : Cursor)
    (shown : c.symbols = Spelling.expr decimal e ++ a :: us) (operator : binaryOp? a.kind = none)
    (tail : a.kind ∉ [.mark .dot, .mark .leftBracket, .mark .leftParen]) (test : a.kind ≠ .keyword .isWord) :
    ∃ e' d, Parses (.expression e') c d ∧ d.symbols = a :: us ∧
      Restamp.expr blank e' = Restamp.expr blank e :=
  recovers _ (ends_cons operator tail test) c shown

theorem RecoversBody.closed (recovers : RecoversBody decimal b) (c : Cursor)
    (shown : c.symbols = Spelling.body decimal b ++ a :: us) (closing : a.kind ∈ closers) :
    ∃ b' d, Parses (.body b') c d ∧ d.symbols = a :: us ∧ Restamp.body blank b' = Restamp.body blank b :=
  recovers (a :: us) closing c shown

theorem recovers_declare (present : e.isMissing = false) (value : RecoversExpr decimal e) :
    RecoversStatement decimal (.declare span name e) := by
  intro vs c shown
  simp only [Spelling.statement_declare, present, Bool.false_eq_true, if_false, List.cons_append] at shown
  obtain ⟨word, -, shown⟩ := Cursor.of_symbols shown
  obtain ⟨next, named, shown⟩ := Cursor.of_name shown
  obtain ⟨assign, -, shown⟩ := Cursor.of_symbols shown
  obtain ⟨e', d, parses, shown, same⟩ := value.before _ shown rfl (by decide) (by decide)
  have stops := Cursor.of_symbols shown
  refine ⟨_, _, .declare word (.lastDeclaration next (.initial assign parses)
    (by simp [stops, Symbol.kind])), shown, ?_⟩
  change Statement.declare _ _ (Restamp.expr blank e') = _
  rw [named, same]
  rfl

theorem recovers_effect {ts : List Tail} (last : endsInCall ts)
    (target : ∀ vs, NoTail vs → Recovers .primary (Restamp.primary blank) (.ref span' name ts)
      (Spelling.primary decimal (.ref span' name ts)) vs) :
    RecoversStatement decimal (.assign span (.ref span' name ts) none .missing) := by
  intro vs c shown
  simp only [Spelling.statement_assign, Option.map_none, Option.getD_none, Spelling.expr, List.append_nil] at shown
  obtain ⟨p', d, parses, shown, same⟩ := target _ (noTail_cons (by decide)) c shown
  have stops := Cursor.of_symbols shown
  obtain ⟨span'', name', ts', rfl, sameName, sameTails⟩ := reference_of_restamp same
  refine ⟨_, _, .effect parses (by rw [stops.1]; rfl) ?_, shown, ?_⟩
  · rw [← endsInCall_restamp blank, sameTails, endsInCall_restamp, last]
  · exact congrArg (Statement.assign _ · none .missing) same

theorem recovers_assign {ts : List Tail} {op : AssignOp}
    (target : ∀ vs, NoTail vs → Recovers .primary (Restamp.primary blank) (.ref span' name ts)
      (Spelling.primary decimal (.ref span' name ts)) vs)
    (value : RecoversExpr decimal e) :
    RecoversStatement decimal (.assign span (.ref span' name ts) (some (.known op)) e) := by
  intro vs c shown
  simp only [Spelling.statement_assign, Option.map_some, Option.getD_some, Spelling.known, List.append_assoc,
    List.cons_append, List.nil_append] at shown
  obtain ⟨p', m, parses, shown, same⟩ := target _ (noTail_assign op) c shown
  obtain ⟨span'', name', ts', rfl, -⟩ := reference_of_restamp same
  obtain ⟨next, -, shown⟩ := Cursor.of_symbols shown
  obtain ⟨value', d, parsesValue, shown, sameValue⟩ := value.before _ shown rfl (by decide) (by decide)
  refine ⟨_, _, .assign parses (by rw [next, assignOp?_symbol]) parsesValue, shown, ?_⟩
  exact congrArg₂ (Statement.assign _ · _ ·) same sameValue

theorem recovers_branch (condition : RecoversExpr decimal e) (inner : RecoversBody decimal yes) :
    RecoversStatement decimal (.branch span e yes .missing) := by
  intro vs c shown
  simp only [Spelling.statement_branch, Body.isMissing, if_true, List.append_nil, List.cons_append,
    List.append_assoc, List.nil_append] at shown
  obtain ⟨word, -, shown⟩ := Cursor.of_symbols shown
  obtain ⟨e', a, parses, shown, same⟩ := condition.before _ shown rfl (by decide) (by decide)
  obtain ⟨opening, -, shown⟩ := Cursor.of_symbols shown
  obtain ⟨yes', m, parsesYes, shown, sameYes⟩ := inner.closed _ shown (by decide)
  obtain ⟨closing, -, shown⟩ := Cursor.of_symbols shown
  refine ⟨_, _, .branch word parses opening parsesYes closing, shown, ?_⟩
  exact congrArg₂ (Statement.branch _ · · .missing) same sameYes

theorem recovers_branches (present : no.isMissing = false) (condition : RecoversExpr decimal e)
    (inner : RecoversBody decimal yes) (other : RecoversBody decimal no) :
    RecoversStatement decimal (.branch span e yes no) := by
  intro vs c shown
  simp only [Spelling.statement_branch, present, Bool.false_eq_true, if_false, List.cons_append, List.append_assoc,
    List.nil_append] at shown
  obtain ⟨word, -, shown⟩ := Cursor.of_symbols shown
  obtain ⟨e', a, parses, shown, same⟩ := condition.before _ shown rfl (by decide) (by decide)
  obtain ⟨opening, -, shown⟩ := Cursor.of_symbols shown
  obtain ⟨yes', b, parsesYes, shown, sameYes⟩ := inner.closed _ shown (by decide)
  obtain ⟨otherwise, -, shown⟩ := Cursor.of_symbols shown
  obtain ⟨no', m, parsesNo, shown, sameNo⟩ := other.closed _ shown (by decide)
  obtain ⟨closing, -, shown⟩ := Cursor.of_symbols shown
  refine ⟨_, _, .branches word parses opening parsesYes otherwise parsesNo closing, shown, ?_⟩
  change Statement.branch _ (Restamp.expr blank e') (Restamp.body blank yes') (Restamp.body blank no') = _
  rw [same, sameYes, sameNo]
  rfl

theorem recovers_forLoop (first : RecoversExpr decimal low) (last : RecoversExpr decimal high)
    (inner : RecoversBody decimal b) : RecoversStatement decimal (.forLoop span name low high b) := by
  intro vs c shown
  simp only [Spelling.statement_forLoop, List.cons_append, List.append_assoc, List.nil_append] at shown
  obtain ⟨word, -, shown⟩ := Cursor.of_symbols shown
  obtain ⟨next, named, shown⟩ := Cursor.of_name shown
  obtain ⟨range, -, shown⟩ := Cursor.of_symbols shown
  obtain ⟨low', l, parsesLow, shown, sameLow⟩ := first.before _ shown rfl (by decide) (by decide)
  obtain ⟨dots, -, shown⟩ := Cursor.of_symbols shown
  obtain ⟨high', h, parsesHigh, shown, sameHigh⟩ := last.before _ shown rfl (by decide) (by decide)
  obtain ⟨opening, -, shown⟩ := Cursor.of_symbols shown
  obtain ⟨b', m, parses, shown, same⟩ := inner.closed _ shown (by decide)
  obtain ⟨closing, -, shown⟩ := Cursor.of_symbols shown
  refine ⟨_, _, .forLoop word next range parsesLow dots parsesHigh opening parses closing, shown, ?_⟩
  change Statement.forLoop _ _ (Restamp.expr blank low') (Restamp.expr blank high') (Restamp.body blank b') = _
  rw [named, sameLow, sameHigh, same]
  rfl

theorem recovers_whileLoop (condition : RecoversExpr decimal e) (repeated : RecoversBody decimal b) :
    RecoversStatement decimal (.whileLoop span e b) := by
  intro vs c shown
  simp only [Spelling.statement_whileLoop, List.cons_append, List.append_assoc, List.nil_append] at shown
  obtain ⟨word, -, shown⟩ := Cursor.of_symbols shown
  obtain ⟨e', a, parses, shown, same⟩ := condition.before _ shown rfl (by decide) (by decide)
  obtain ⟨opening, -, shown⟩ := Cursor.of_symbols shown
  obtain ⟨b', m, parsesBody, shown, sameBody⟩ := repeated.closed _ shown (by decide)
  obtain ⟨closing, -, shown⟩ := Cursor.of_symbols shown
  refine ⟨_, _, .whileLoop word parses opening parsesBody closing, shown, ?_⟩
  exact congrArg₂ (Statement.whileLoop _ · ·) same sameBody

end Statements

mutual

theorem recovers_expr : ∀ e, Expressible.expr true e → Readable decimal (Reals.expr e) →
    RecoversExpr decimal e
  | .missing, expressible, _, _, _ => by simp [Expressible.expr] at expressible
  | .mk _ [] _, expressible, _, _, _ => by simp [Expressible.expr] at expressible
  | .mk _ (x :: xs) ops, expressible, readable, vs, ends => by
    intro c shown
    simp [Expressible.expr, Expressible.operands, and_assoc] at expressible
    obtain ⟨count, wellKnown, first, placed, rest⟩ := expressible
    obtain ⟨firstReals, restReals⟩ := readable_append.mp readable
    have known : ops.all Word.isKnown := by simpa using wellKnown
    obtain ⟨noTail, test, operator⟩ := follows_operand count known ends
    rw [Spelling.expr, List.append_assoc] at shown
    obtain ⟨x', m, parsesFirst, shown, sameFirst⟩ :=
      recovers_operand x xs.isEmpty first placed firstReals _ noTail test operator c shown
    obtain ⟨more, d, parsesRest, shown, sameRest, sameOps⟩ :=
      recovers_operators xs ops count known rest restReals vs (ends_of_cons ends) m shown
    refine ⟨_, d, .expression parsesFirst parsesRest, shown, ?_⟩
    simp only [Restamp.expr, Restamp.operands]
    rw [sameFirst, sameRest, sameOps]
    rfl

theorem recovers_operators : ∀ xs ops, ops.length = xs.length → ops.all Word.isKnown →
    Expressible.operands true xs → Readable decimal (Reals.operands xs) →
    ∀ vs, Ends (xs.isEmpty || lastTested xs) vs →
    ∀ c : Cursor, c.symbols = Spelling.operators decimal xs ops ++ vs →
      ∃ more d, Parses (.operators more) c d ∧ d.symbols = vs ∧
        Restamp.operands blank (more.map (·.2)) = Restamp.operands blank xs ∧
        (more.map fun (op, _) => Word.known op) = ops
  | [], [], _, _, _, _, vs, ends, c, shown => by
    refine ⟨[], c, .noOperator ?_, shown, rfl, rfl⟩
    rw [c.kindAt_eq, shown]
    exact ends.operator
  | _ :: _, .other _ _ :: _, _, wellKnown, _, _, _, _, _, _ => by simp [Word.isKnown] at wellKnown
  | x :: xs, .known op :: ops, count, wellKnown, expressible, readable, vs, ends, c, shown => by
    simp [Expressible.operands, and_assoc] at expressible
    obtain ⟨first, placed, rest⟩ := expressible
    obtain ⟨firstReals, restReals⟩ := readable_append.mp readable
    have count : ops.length = xs.length := by simpa using count
    have known : ops.all Word.isKnown := by simpa [Word.isKnown] using wellKnown
    obtain ⟨noTail, test, operator⟩ := follows_operand count known ends
    rw [Spelling.operators, List.append_assoc, List.append_assoc] at shown
    obtain ⟨next, -, shown⟩ := Cursor.of_symbols shown
    obtain ⟨x', m, parsesFirst, shown, sameFirst⟩ :=
      recovers_operand x xs.isEmpty first placed firstReals _ noTail test operator _ shown
    obtain ⟨more, d, parsesRest, shown, sameRest, sameOps⟩ :=
      recovers_operators xs ops count known rest restReals vs (ends_of_cons ends) m shown
    refine ⟨(op, x') :: more, d, .operator (by rw [next, binaryOp?_symbol]) parsesFirst parsesRest,
      shown, ?_, by simpa using sameOps⟩
    simp only [List.map_cons, Restamp.operands]
    rw [sameFirst, sameRest]

theorem recovers_operand : ∀ x isLast, Expressible.operand true x → x.placed true isLast →
    Readable decimal (Reals.operand x) → ∀ vs, NoTail vs →
    (x.isTested ∨ nextKind vs ≠ .keyword .isWord) →
    (isLast → binaryOp? (nextKind vs) = none) →
      Recovers .operand (Restamp.operand blank) x (Spelling.operand decimal x) vs
  | .mk _ op p test, isLast, expressible, placed, readable, vs, noTail, tested, operator => by
    intro c shown
    simp [Expressible.operand, and_assoc] at expressible
    obtain ⟨signKnown, inner, testKnown⟩ := expressible
    rw [Spelling.operand, List.append_assoc, List.append_assoc] at shown
    obtain ⟨noTail', results⟩ := follows_primary placed testKnown noTail tested operator
    obtain ⟨a, shown, sign⟩ := recovers_sign? signKnown shown
    obtain ⟨p', b, parses, shown, same⟩ :=
      recovers_primary p inner readable _ noTail' results a shown
    obtain ⟨d, parsesTest, shown⟩ := recovers_test testKnown shown tested
    refine ⟨_, d, .operand (sign _ _ parses) parses parsesTest, shown, ?_⟩
    simp only [Restamp.operand]
    rw [same]
    rfl

theorem recovers_primary : ∀ p, Expressible.primary true p → Readable decimal (Reals.primary p) →
    ∀ vs, NoTail vs → (∀ r ∈ p.result?, Ends r.endsTested vs) →
      Recovers .primary (Restamp.primary blank) p (Spelling.primary decimal p) vs
  | .read _ (.other _ _), expressible, _, _, _, _ => by
    simp [Expressible.primary, Word.isKnown] at expressible
  | .read _ (.known r), _, _, vs, _, _ => by
    intro c shown
    obtain ⟨next, -, shown⟩ := Cursor.of_symbols shown
    exact ⟨_, _, .read (by rw [next, readKind?_symbol]), shown, rfl⟩
  | .ref _ name ts, expressible, readable, vs, noTail, _ => by
    intro c shown
    simp [Expressible.primary] at expressible
    obtain ⟨next, named, shown⟩ := Cursor.of_name shown
    obtain ⟨ts', d, parses, shown, same⟩ := recovers_tails ts expressible.2 readable vs noTail _ shown
    refine ⟨_, d, .reference next parses, shown, ?_⟩
    simp only [Restamp.primary]
    rw [same, named]
    rfl
  | .literal _ l, expressible, readable, vs, _, results => by
    intro c shown
    obtain ⟨l', d, parses, shown, same⟩ := recovers_literal l expressible readable vs results c shown
    refine ⟨_, d, .constant parses, shown, ?_⟩
    simp only [Restamp.primary]
    rw [same]
    rfl
  | .paren _ e, expressible, readable, vs, _, _ => by
    intro c shown
    simp only [Spelling.primary, List.cons_append, List.append_assoc, List.nil_append] at shown
    obtain ⟨left, -, shown⟩ := Cursor.of_symbols shown
    obtain ⟨e', m, parses, shown, same⟩ :=
      (recovers_expr e expressible readable).before _ shown rfl (by decide) (by decide)
    obtain ⟨right, -, shown⟩ := Cursor.of_symbols shown
    refine ⟨_, _, .paren left parses right, shown, ?_⟩
    simp only [Restamp.primary]
    rw [same]
    rfl

theorem recovers_tails : ∀ ts, Expressible.tails true ts → Readable decimal (Reals.tails ts) →
    ∀ vs, NoTail vs → Recovers .tails (Restamp.tails blank) ts (Spelling.tails decimal ts) vs
  | [], _, _, vs, noTail => by
    intro c shown
    have noTail' : NoTail c.symbols := by rwa [shown]
    simp [NoTail, ← c.kindAt_eq] at noTail'
    exact ⟨[], c, .noTail noTail'.1 noTail'.2.1 noTail'.2.2, shown, rfl⟩
  | t :: ts, expressible, readable, vs, noTail => by
    intro c shown
    simp [Expressible.tails] at expressible
    obtain ⟨firstReals, restReals⟩ := readable_append.mp readable
    rw [Spelling.tails, List.append_assoc] at shown
    obtain ⟨t', m, parsesFirst, shown, sameFirst⟩ := recovers_tail t expressible.1 firstReals _ c shown
    obtain ⟨ts', d, parsesRest, shown, sameRest⟩ :=
      recovers_tails ts expressible.2 restReals vs noTail m shown
    refine ⟨_, d, .anotherTail parsesFirst parsesRest, shown, ?_⟩
    rw [Restamp.tails, Restamp.tails, sameFirst, sameRest]

theorem recovers_tail : ∀ t, Expressible.tail true t → Readable decimal (Reals.tail t) →
    ∀ vs, Recovers .tail (Restamp.tail blank) t (Spelling.tail decimal t) vs
  | .index _ i, expressible, _, vs => by
    intro c shown
    obtain ⟨dot, -, shown⟩ := Cursor.of_symbols shown
    obtain ⟨next, value, shown⟩ := Cursor.of_symbols shown
    have nonneg : 0 ≤ i.toInt := by simpa [Expressible.tail] using expressible
    exact ⟨_, _, .index dot next (integerValue?_of_symbol nonneg value), shown, rfl⟩
  | .field _ name, _, _, vs => by
    intro c shown
    obtain ⟨dot, -, shown⟩ := Cursor.of_symbols shown
    obtain ⟨next, named, shown⟩ := Cursor.of_name shown
    refine ⟨_, _, .field dot next, shown, ?_⟩
    rw [named]
    rfl
  | .subscript _ e, expressible, readable, vs => by
    intro c shown
    simp only [Spelling.tail, List.cons_append, List.append_assoc, List.nil_append] at shown
    obtain ⟨left, -, shown⟩ := Cursor.of_symbols shown
    obtain ⟨e', m, parses, shown, same⟩ :=
      (recovers_expr e expressible readable).before _ shown rfl (by decide) (by decide)
    obtain ⟨right, -, shown⟩ := Cursor.of_symbols shown
    refine ⟨_, _, .subscript left parses right, shown, ?_⟩
    simp only [Restamp.tail]
    rw [same]
    rfl
  | .call _ [], _, _, vs => by
    intro c shown
    obtain ⟨left, -, shown⟩ := Cursor.of_symbols shown
    obtain ⟨right, -, shown⟩ := Cursor.of_symbols shown
    exact ⟨_, _, .emptyCall left right, shown, rfl⟩
  | .call _ (e :: es), expressible, readable, vs => by
    intro c shown
    simp only [Spelling.tail, List.cons_append, List.append_assoc, List.nil_append] at shown
    obtain ⟨left, -, shown⟩ := Cursor.of_symbols shown
    obtain ⟨es', m, parses, shown, same⟩ :=
      recovers_exprs (e :: es) nofun expressible readable _ (ends_cons (by rfl) (by decide) (by decide))
        (by nofun) _ shown
    obtain ⟨right, -, shown⟩ := Cursor.of_symbols shown
    refine ⟨_, _, .call left parses right, shown, ?_⟩
    simp only [Restamp.tail]
    rw [same]
    rfl

theorem recovers_exprs : ∀ es, es ≠ [] → Expressible.exprs true es → Readable decimal (Reals.exprs es) →
    ∀ vs, Ends false vs → nextKind vs ≠ .mark .comma →
      Recovers .expressions (Restamp.exprs blank) es (Spelling.exprs decimal es) vs
  | [], nonempty, _, _, _, _, _ => absurd rfl nonempty
  | [e], _, expressible, readable, vs, ends, comma => by
    intro c shown
    simp [Expressible.exprs] at expressible
    obtain ⟨firstReals, -⟩ := readable_append.mp readable
    simp only [Spelling.exprs, List.isEmpty_nil, if_true, List.append_nil] at shown
    obtain ⟨e', d, parses, shown, same⟩ :=
      recovers_expr e expressible firstReals _ ends.of_tested c shown
    refine ⟨_, d, .lastExpression parses ?_, shown, ?_⟩
    · rwa [d.kindAt_eq, shown]
    · simp only [Restamp.exprs]
      rw [same]
  | e :: f :: es, _, expressible, readable, vs, ends, comma => by
    intro c shown
    rw [Expressible.exprs, Bool.and_eq_true] at expressible
    obtain ⟨firstReals, restReals⟩ := readable_append.mp readable
    rw [Spelling.exprs, List.isEmpty_cons, if_neg nofun, List.append_assoc] at shown
    obtain ⟨e', m, parses, shown, same⟩ :=
      (recovers_expr e expressible.1 firstReals).before c shown rfl (by decide) (by decide)
    obtain ⟨next, -, shown⟩ := Cursor.of_symbols shown
    obtain ⟨es', d, parsesRest, shown, sameRest⟩ :=
      recovers_exprs (f :: es) nofun expressible.2 restReals vs ends comma _ shown
    refine ⟨_, d, .anotherExpression parses next parsesRest, shown, ?_⟩
    rw [Restamp.exprs, same, sameRest]
    rfl

theorem recovers_literal : ∀ l, Expressible.literal true l → Readable decimal (Reals.literal l) →
    ∀ vs, (∀ r ∈ l.result?, Ends r.endsTested vs) →
      Recovers .literal (Restamp.literal blank) l (Spelling.literal decimal l) vs
  | .missing, expressible, _, _, _ => by simp [Expressible.literal] at expressible
  | .integer _ n, expressible, _, vs, _ => by
    intro c shown
    obtain ⟨next, value, shown⟩ := Cursor.of_symbols shown
    have nonneg : 0 ≤ n.toInt := by simpa [Expressible.literal] using expressible
    exact ⟨_, _, .integer next (integerValue?_of_symbol nonneg value), shown, rfl⟩
  | .real _ x, _, readable, vs, _ => by
    intro c shown
    obtain ⟨next, value, shown⟩ := Cursor.of_symbols shown
    have text : c.value = decimal x := by simpa [Symbol.kind, Token.Kind.symbol] using value
    exact ⟨_, _, .real next (by rw [text]; exact readable x (by simp [Reals.literal])), shown, rfl⟩
  | .boolean _ b, _, _, vs, _ => by
    intro c shown
    cases b with
    | true =>
      obtain ⟨next, -, shown⟩ := Cursor.of_symbols shown
      exact ⟨_, _, .trueWord next, shown, rfl⟩
    | false =>
      obtain ⟨next, -, shown⟩ := Cursor.of_symbols shown
      exact ⟨_, _, .falseWord next, shown, rfl⟩
  | .string _ text, _, _, vs, _ => by
    intro c shown
    obtain ⟨next, value, shown⟩ := Cursor.of_symbols shown
    have same : c.value = text := by simpa [Symbol.kind, Token.Kind.symbol] using value
    refine ⟨_, _, .string next, shown, ?_⟩
    rw [same]
    rfl
  | .empty _, _, _, vs, _ => by
    intro c shown
    obtain ⟨next, -, shown⟩ := Cursor.of_symbols shown
    exact ⟨_, _, .emptyWord next, shown, rfl⟩
  | .array _ [], _, _, vs, _ => by
    intro c shown
    obtain ⟨left, -, shown⟩ := Cursor.of_symbols shown
    obtain ⟨right, -, shown⟩ := Cursor.of_symbols shown
    exact ⟨_, _, .emptyArray left right, shown, rfl⟩
  | .array _ (e :: es), expressible, readable, vs, _ => by
    intro c shown
    simp only [Spelling.literal, List.cons_append, List.append_assoc, List.nil_append] at shown
    obtain ⟨left, -, shown⟩ := Cursor.of_symbols shown
    obtain ⟨es', m, parses, shown, same⟩ :=
      recovers_exprs (e :: es) nofun expressible readable _ (ends_cons (by rfl) (by decide) (by decide))
        (by nofun) _ shown
    obtain ⟨right, -, shown⟩ := Cursor.of_symbols shown
    refine ⟨_, _, .array left parses right, shown, ?_⟩
    simp only [Restamp.literal]
    rw [same]
    rfl
  | .tuple _ es, expressible, readable, vs, _ => by
    intro c shown
    simp only [Spelling.literal, List.cons_append, List.append_assoc, List.nil_append] at shown
    obtain ⟨left, -, shown⟩ := Cursor.of_symbols shown
    obtain ⟨es', m, parses, shown, same⟩ :=
      recovers_elements es expressible readable _ rfl _ shown
    obtain ⟨right, -, shown⟩ := Cursor.of_symbols shown
    refine ⟨_, _, .tuple left parses right, shown, ?_⟩
    simp only [Restamp.literal]
    rw [same]
    rfl
  | .function _ params b, expressible, readable, vs, _ => by
    intro c shown
    simp [Expressible.literal] at expressible
    simp only [Spelling.literal, List.cons_append, List.append_assoc, List.nil_append] at shown
    obtain ⟨word, -, shown⟩ := Cursor.of_symbols shown
    obtain ⟨a, parsesParams, shown⟩ := recovers_parameters shown
    obtain ⟨opening, -, shown⟩ := Cursor.of_symbols shown
    obtain ⟨b', m, parses, shown, same⟩ :=
      recovers_body b expressible.2 readable _ (by simp [nextKind, Symbol.kind, closers]) _ shown
    obtain ⟨closing, -, shown⟩ := Cursor.of_symbols shown
    refine ⟨_, _, .function word parsesParams opening parses closing, shown, ?_⟩
    simp only [Restamp.literal]
    rw [same]
    rfl
  | .lambda _ params e, expressible, readable, vs, results => by
    intro c shown
    simp [Expressible.literal] at expressible
    simp only [Spelling.literal, List.cons_append, List.append_assoc] at shown
    obtain ⟨word, -, shown⟩ := Cursor.of_symbols shown
    obtain ⟨a, parsesParams, shown⟩ := recovers_parameters shown
    obtain ⟨arrow, -, shown⟩ := Cursor.of_symbols shown
    obtain ⟨e', d, parses, shown, same⟩ :=
      recovers_expr e expressible.2 readable vs (results e rfl) _ shown
    refine ⟨_, _, .lambda word parsesParams arrow parses, shown, ?_⟩
    simp only [Restamp.literal]
    rw [same]
    rfl

theorem recovers_element : ∀ e, Expressible.element true e → Readable decimal (Reals.element e) →
    ∀ vs, Ends false vs → nextKind vs ≠ .mark .assign →
    ∀ c : Cursor, c.symbols = Spelling.element decimal e ++ vs →
      ∃ name value m d, Parses (.label name) c m ∧ Parses (.expression value) m d ∧ d.symbols = vs ∧
        ∀ span, Restamp.element blank (.mk span name value) = Restamp.element blank e
  | .mk _ name value, expressible, readable, vs, ends, assign, c, shown => by
    simp [Expressible.element] at expressible
    obtain ⟨-, inner⟩ := expressible
    rw [Spelling.element, List.append_assoc] at shown
    cases name with
    | nil =>
      obtain ⟨value', d, parses, shown, same⟩ :=
        recovers_expr value inner readable vs ends.of_tested c shown
      refine ⟨[], value', c, d, .noLabel (parses.expression_unlabelled ?_), parses, shown, fun span => ?_⟩
      · rwa [d.kindAt_eq, shown]
      · rw [Restamp.element, Restamp.element, same]
        rfl
    | cons b t =>
      obtain ⟨next, named, shown⟩ := Cursor.of_name shown
      obtain ⟨mark, -, shown⟩ := Cursor.of_symbols shown
      obtain ⟨value', d, parses, shown, same⟩ :=
        recovers_expr value inner readable vs ends.of_tested _ shown
      refine ⟨_, value', _, d, .label next mark, parses, shown, fun span => ?_⟩
      rw [Restamp.element, Restamp.element, same, named]
      rfl

theorem recovers_elements : ∀ es, Expressible.elements true es → Readable decimal (Reals.elements es) →
    ∀ vs, nextKind vs = .mark .rightBrace →
      Recovers .elements (Restamp.elements blank) es (Spelling.elements decimal es) vs
  | [], _, _, vs, next => by
    intro c shown
    exact ⟨[], c, .noElement (by rw [c.kindAt_eq, shown]; exact next), shown, rfl⟩
  | [e], expressible, readable, vs, next => by
    intro c shown
    simp [Expressible.elements] at expressible
    obtain ⟨firstReals, -⟩ := readable_append.mp readable
    simp only [Spelling.elements, List.isEmpty_nil, if_true, List.append_nil] at shown
    obtain ⟨name, value, m, d, label, parses, shown, same⟩ :=
      recovers_element e expressible firstReals vs
        ⟨by rw [next]; rfl, by simp [NoTail, next], .inr (by simp [next])⟩ (by simp [next]) c shown
    refine ⟨_, d, .lastElement label parses ?_, shown, ?_⟩
    · rw [d.kindAt_eq, shown, next]
      nofun
    · simp only [Restamp.elements]
      rw [same]
  | e :: f :: es, expressible, readable, vs, next => by
    intro c shown
    rw [Expressible.elements, Bool.and_eq_true] at expressible
    obtain ⟨firstReals, restReals⟩ := readable_append.mp readable
    rw [Spelling.elements, List.isEmpty_cons, if_neg nofun, List.append_assoc] at shown
    obtain ⟨name, value, a, m, label, parses, shown, same⟩ :=
      recovers_element e expressible.1 firstReals _ (ends_cons (by rfl) (by decide) (by decide)) (by nofun) c shown
    obtain ⟨comma, -, shown⟩ := Cursor.of_symbols shown
    obtain ⟨es', d, parsesRest, shown, sameRest⟩ :=
      recovers_elements (f :: es) expressible.2 restReals vs next _ shown
    refine ⟨_, d, .anotherElement label parses comma parsesRest, shown, ?_⟩
    rw [Restamp.elements, same, sameRest]
    rfl

theorem recovers_statement : ∀ s, Expressible.statement true s → Readable decimal (Reals.statement s) →
    RecoversStatement decimal s
  | .declare _ name .missing, _, _, vs => by
    intro c shown
    obtain ⟨word, -, shown⟩ := Cursor.of_symbols shown
    obtain ⟨next, named, shown⟩ := Cursor.of_name shown
    have stops := Cursor.of_symbols shown
    refine ⟨_, _, .declare word (.lastDeclaration next (.noInitial (by simp [stops, Symbol.kind]))
      (by simp [stops, Symbol.kind])), shown, ?_⟩
    rw [named]
    rfl
  | .declare _ _ (.mk span xs ops), expressible, readable, vs => by
    simp [Expressible.statement, Expr.isMissing] at expressible
    exact recovers_declare rfl (recovers_expr (.mk span xs ops) expressible.2 readable) vs
  | .assign _ (.ref span name ts) none .missing, expressible, readable, vs => by
    simp [Expressible.statement, Expr.isMissing, and_assoc] at expressible
    obtain ⟨isName, inner, last⟩ := expressible
    obtain ⟨targetReals, -⟩ := readable_append.mp readable
    have target := recovers_primary (.ref span name ts) (by simp [Expressible.primary, isName, inner]) targetReals
    exact recovers_effect last (fun us noTail => target us noTail (by rintro _ ⟨⟩)) vs
  | .assign _ (.ref span name ts) (some (.known op)) value, expressible, readable, vs => by
    simp [Expressible.statement, and_assoc] at expressible
    obtain ⟨isName, inner, -, right⟩ := expressible
    obtain ⟨targetReals, valueReals⟩ := readable_append.mp readable
    have target := recovers_primary (.ref span name ts) (by simp [Expressible.primary, isName, inner]) targetReals
    exact recovers_assign (fun us noTail => target us noTail (by rintro _ ⟨⟩))
      (recovers_expr value right valueReals) vs
  | .assign _ (.ref _ _ _) none (.mk _ _ _), expressible, _, _ => by
    simp [Expressible.statement, Expr.isMissing] at expressible
  | .assign _ (.ref _ _ _) (some (.other _ _)) _, expressible, _, _ => by
    simp [Expressible.statement, Word.isKnown] at expressible
  | .assign _ (.read _ _) _ _, expressible, _, _ => by simp [Expressible.statement] at expressible
  | .assign _ (.literal _ _) _ _, expressible, _, _ => by simp [Expressible.statement] at expressible
  | .assign _ (.paren _ _) _ _, expressible, _, _ => by simp [Expressible.statement] at expressible
  | .branch _ condition yes .missing, expressible, readable, vs => by
    simp [Expressible.statement, Body.isMissing] at expressible
    obtain ⟨reals, -⟩ := readable_append.mp readable
    obtain ⟨conditionReals, yesReals⟩ := readable_append.mp reals
    exact recovers_branch (recovers_expr condition expressible.1 conditionReals)
      (recovers_body yes expressible.2 yesReals) vs
  | .branch _ condition yes (.mk span ss cleared), expressible, readable, vs => by
    simp [Expressible.statement, Body.isMissing, and_assoc] at expressible
    obtain ⟨tested, inner, other⟩ := expressible
    obtain ⟨reals, noReals⟩ := readable_append.mp readable
    obtain ⟨conditionReals, yesReals⟩ := readable_append.mp reals
    exact recovers_branches rfl (recovers_expr condition tested conditionReals)
      (recovers_body yes inner yesReals) (recovers_body (.mk span ss cleared) other noReals) vs
  | .forLoop _ _ low high b, expressible, readable, vs => by
    simp [Expressible.statement, and_assoc] at expressible
    obtain ⟨-, first, last, inner⟩ := expressible
    obtain ⟨reals, bodyReals⟩ := readable_append.mp readable
    obtain ⟨lowReals, highReals⟩ := readable_append.mp reals
    exact recovers_forLoop (recovers_expr low first lowReals) (recovers_expr high last highReals)
      (recovers_body b inner bodyReals) vs
  | .whileLoop _ condition b, expressible, readable, vs => by
    simp [Expressible.statement] at expressible
    obtain ⟨conditionReals, bodyReals⟩ := readable_append.mp readable
    exact recovers_whileLoop (recovers_expr condition expressible.1 conditionReals)
      (recovers_body b expressible.2 bodyReals) vs
  | .print _ es, expressible, readable, vs => by
    intro c shown
    simp [Expressible.statement] at expressible
    obtain ⟨word, -, shown⟩ := Cursor.of_symbols shown
    obtain ⟨es', d, parses, shown, same⟩ :=
      recovers_exprs es expressible.1 expressible.2 readable _ (ends_cons (by rfl) (by decide) (by decide))
        (by nofun) _ shown
    refine ⟨_, _, .print word parses, shown, ?_⟩
    simp only [Restamp.statement]
    rw [same]
    rfl
  | .ret _ .missing, _, _, vs => by
    intro c shown
    obtain ⟨word, -, shown⟩ := Cursor.of_symbols shown
    have stops := Cursor.of_symbols shown
    exact ⟨_, _, .ret word (by rw [stops.1]; rfl), shown, rfl⟩
  | .ret _ (.mk span xs ops), expressible, readable, vs => by
    intro c shown
    simp [Expressible.statement, Expr.isMissing] at expressible
    obtain ⟨word, -, shown⟩ := Cursor.of_symbols shown
    obtain ⟨e', d, parses, shown, same⟩ :=
      (recovers_expr (.mk span xs ops) expressible readable).before _ shown rfl (by decide) (by decide)
    refine ⟨_, _, .retValue word parses, shown, ?_⟩
    simp only [Restamp.statement]
    rw [same]
    rfl
  | .brk _, _, _, vs => by
    intro c shown
    obtain ⟨word, -, shown⟩ := Cursor.of_symbols shown
    exact ⟨_, _, .brk word, shown, rfl⟩
  | .cont _, _, _, vs => by
    intro c shown
    obtain ⟨word, -, shown⟩ := Cursor.of_symbols shown
    exact ⟨_, _, .cont word, shown, rfl⟩
  | .block _, expressible, _, _ => by simp [Expressible.statement] at expressible

theorem recovers_statements : ∀ ss, Expressible.statements true ss →
    Readable decimal (Reals.statements ss) → ∀ vs, nextKind vs ∈ closers →
      Recovers .statements (Restamp.statements blank) ss (Spelling.statements decimal ss) vs
  | [], _, _, vs, next => by
    intro c shown
    exact ⟨[], c, .noStatement (by rw [c.kindAt_eq, shown]; exact next), shown, rfl⟩
  | s :: ss, expressible, readable, vs, next => by
    intro c shown
    simp [Expressible.statements] at expressible
    obtain ⟨firstReals, restReals⟩ := readable_append.mp readable
    rw [Spelling.statements, List.append_assoc] at shown
    obtain ⟨s', m, parses, shown, same⟩ := recovers_statement s expressible.1 firstReals _ c shown
    obtain ⟨semicolon, -, shown⟩ := Cursor.of_symbols shown
    obtain ⟨ss', d, parsesRest, shown, sameRest⟩ :=
      recovers_statements ss expressible.2 restReals vs next _ shown
    refine ⟨_, d, .anotherStatement parses (.semicolon semicolon parsesRest), shown, ?_⟩
    simp only [List.singleton_append, Restamp.statements]
    rw [same, sameRest]

theorem recovers_body : ∀ b, Expressible.body true b → Readable decimal (Reals.body b) →
    RecoversBody decimal b
  | .missing, expressible, _, _, _ => by simp [Expressible.body] at expressible
  | .mk _ ss _, expressible, readable, vs, next => by
    intro c shown
    obtain ⟨ss', d, parses, shown, same⟩ := recovers_statements ss expressible readable vs next c shown
    refine ⟨_, d, .body parses, shown, ?_⟩
    simp only [Restamp.body]
    rw [same]
    rfl

end

/-- The parser reads a program from its spelling, with the places of the tokens. -/
theorem parseTokens_spelling {p : Program} {ts : Lexer.Tokens} (expressible : p.expressible true)
    (readable : Readable decimal p.reals) (shown : ts.symbols = p.spelling decimal) :
    ∃ q, parseTokens ts = .ok q ∧ q.bare = p.bare := by
  obtain ⟨span, body⟩ := p
  cases body with
  | missing => simp [Program.expressible, Expressible.body] at expressible
  | mk inner ss cleared =>
    have start : (Cursor.ofTokens ts).symbols = Spelling.statements decimal ss ++ [] := by
      rw [List.append_nil]
      exact shown
    obtain ⟨ss', d, parses, left, same⟩ :=
      recovers_statements ss expressible readable [] (by simp [nextKind, closers]) _ start
    have ends : d.kindAt 0 = .endOfInput := by
      rw [d.kindAt_eq, left]
      rfl
    refine ⟨_, parseTokens_eq_ok.mpr ⟨ss', d, parses, ends, rfl⟩, ?_⟩
    simp only [Program.bare, Program.restamp, Restamp.body]
    rw [same]
    rfl

end CellScript.Parser
