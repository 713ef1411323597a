import CellScript.Proofs.Parsing.Extension

/-! Every function of the parser keeps to what it has read when more tokens follow, and can be completed
where it finds the end of input. -/
namespace CellScript.Parser

/-- Tokens before which an expression can end. -/
def exits : List Token.Kind :=
  [.mark .rightParen, .mark .rightBracket, .mark .rightBrace, .mark .dotDot, .keyword .thenWord,
    .keyword .loopWord] ++ closers

/-- Tokens before which a variable can end. -/
def targetExits : List Token.Kind := .mark .assign :: exits

variable {n : Nat} {follow : List Token.Kind} {loose : List Token → Prop} {c d : Cursor} {e : Error}

section Words

theorem resumable_unaryOp : Resumable n [.keyword .trueWord] [] never (fun _ => unaryOp) := by
  refine .peek (fun kind => ?_) resumable_pure (fun kind fits => ?_)
  · cases unaryOp? kind with
    | none => exact resumable_pure.steady
    | some op => exact .advance resumable_pure
  · rw [List.mem_singleton.mp fits]
    rfl

/-- What `typeName` does at an opening bracket or brace. -/
def pairType (close : Mark) (t : TypeName) : Parse TypeName := do
  if (← get).kindAt 1 = .mark close then
    advance
    advance
    return t
  else unexpected "expected type indicator after 'is'"

theorem run_get {α : Type} {next : Cursor → Parse α} : (get >>= next).run c = (next c).run c := rfl

theorem typeName_bracket (next : c.kindAt 0 = .mark .leftBracket) :
    typeName.run c = (pairType .rightBracket .array).run c := by
  rw [typeName, pairType, run_get, run_get, next]
  by_cases close : c.kindAt 1 = .mark .rightBracket
  · rw [if_pos close, close]
    rfl
  · rw [if_neg close]
    simp [typeWord?, close]

theorem typeName_brace (next : c.kindAt 0 = .mark .leftBrace) :
    typeName.run c = (pairType .rightBrace .tuple).run c := by
  rw [typeName, pairType, run_get, run_get, next]
  by_cases close : c.kindAt 1 = .mark .rightBrace
  · rw [if_pos close, close]
    rfl
  · rw [if_neg close]
    simp [typeWord?, close]

theorem typeName_other (word : typeWord? (c.kindAt 0) = none) (bracket : c.kindAt 0 ≠ .mark .leftBracket)
    (brace : c.kindAt 0 ≠ .mark .leftBrace) :
    typeName.run c = (unexpected "expected type indicator after 'is'" : Parse TypeName).run c := by
  rw [typeName, run_get, word]
  simp [bracket, brace]

/-- A bracket or brace that stands last is itself blamed. -/
theorem steadyAt_pairType {opening : Mark} (close : Mark) (t : TypeName)
    (next : c.kindAt 0 = .mark opening) (pair : opening ∈ [.leftBracket, .leftBrace]) :
    SteadyAt n follow loose (fun _ => pairType close t) c := by
  obtain ⟨left, rest, kind, -⟩ := c.rest_eq_of_kind next nofun
  have some : c.rest ≠ [] := by simp [rest]
  by_cases closed : c.kindAt 1 = .mark close
  · have more : c.skip.rest ≠ [] := by
      intro last
      rw [Cursor.kindAt_one, c.skip.kindAt_end last] at closed
      cases closed
    refine steadyAt_gives (a := t) (c.onward_skip.trans c.skip.onward_skip) fun k ts stop _ => ?_
    simp [-bind_pure_comp, pairType, Cursor.kindAt_one, Cursor.skip_followed, some, more,
      Cursor.kindAt_followed, (Cursor.kindAt_one c).symm.trans closed]
  have fails : Fails (pairType close t) c
      ⟨left.span, .expected "expected type indicator after 'is'" (.some left.value)⟩ := by
    rw [pairType, fails_get, if_neg closed]
    exact fails_unexpected_at rest
  by_cases last : c.skip.rest = []
  · refine .of_fails fails (.halved ⟨left, by rw [rest, last]; rfl, rfl, .inr ⟨?_, rfl⟩⟩)
    rw [kind]
    simpa using pair
  · refine steadyAt_fails fails rfl fun ts stop => ?_
    have open' : (c.followed ts stop).kindAt 1 ≠ .mark close := by
      rwa [Cursor.kindAt_one, Cursor.skip_followed some, Cursor.kindAt_followed last, ← Cursor.kindAt_one]
    simp [pairType, open']

theorem steady_typeName : Steady n follow loose (fun _ => typeName) := by
  intro c some
  have same := c.kindAt_followed some
  cases word : typeWord? (c.kindAt 0) with
  | some t =>
    refine steadyAt_gives (a := t) c.onward_skip fun k ts stop _ => ?_
    simp [-bind_pure_comp, typeName, same, word, c.skip_followed some]
  | none =>
    by_cases bracket : c.kindAt 0 = .mark .leftBracket
    · refine (steadyAt_pairType .rightBracket .array bracket (by decide)).of_runs
        (fun k ts stop _ => ?_) (.here c)
      exact typeName_bracket (by rw [same, bracket])
    by_cases brace : c.kindAt 0 = .mark .leftBrace
    · refine (steadyAt_pairType .rightBrace .tuple brace (by decide)).of_runs
        (fun k ts stop _ => ?_) (.here c)
      exact typeName_brace (by rw [same, brace])
    · have refused : SteadyAt n follow loose
          (fun _ => (unexpected "expected type indicator after 'is'" : Parse TypeName)) c :=
        steady_unexpected c some
      refine refused.of_runs (fun k ts stop _ => ?_) (.here c)
      exact typeName_other (by rw [same, word]) (by rwa [same]) (by rwa [same])

theorem resumable_typeName : Resumable n follow [.keyword .intWord] loose (fun _ => typeName) := by
  have other {c : Cursor} (none : c.rest = []) := typeName_other (c := c) (by rw [c.kindAt_end none]; rfl)
    (by rw [c.kindAt_end none]; nofun) (by rw [c.kindAt_end none]; nofun)
  refine .of_needy steady_typeName (fun c e none fails => ?_) (fun c a d none gives => ?_) ?_ rfl
  · exact ends_unexpected (n := n) c e none ((other none).symm.trans fails)
  · exact needy_unexpected (n := n) c a d none ((other none).symm.trans gives)
  · intro c ts us rest same _
    obtain ⟨t, rfl, kind⟩ := List.map_eq_singleton_iff.mp same
    have word : typeWord? (c.kindAt 0) = some .int := by
      rw [c.kindAt_eq_leads, rest]
      simp [leads, kind, typeWord?]
    refine ⟨.int, c.skip, by rw [Cursor.rest_skip, rest]; rfl, 0, fun _ _ => ?_⟩
    simp [-bind_pure_comp, typeName, word]

theorem resumable_typeTest : Resumable n exits [] loose (fun _ => typeTest) :=
  .accept (.andThen (fun _ => resumable_typeName) (fun _ => resumable_pure) rfl) resumable_pure (by decide)

/-- What `selector` does at a token. -/
def selectorAt (start : Span) (t : Token) : Parse Tail :=
  match t.kind with
  | .integer => do
    advance
    match integerValue? t.value with
    | some i => return .index (← spanFrom start) i
    | none => failAt t.span .indexTooLarge
  | .name => do
    advance
    return .field (← spanFrom start) t.value
  | _ => unexpected "expected tuple index or field name after '.'"

theorem run_selector {start : Span} {t : Token} {ts : List Token} (rest : c.rest = t :: ts) :
    (selector start).run c = (selectorAt start t).run c := by
  rw [selector, run_get, rest]
  rfl

/-- A step after the next token that fails, whatever follows. -/
theorem steadyAt_advance_fails {α : Type} {span : Span} {cause : Cause}
    (complete : (Error.mk span cause).incomplete = false) :
    SteadyAt n follow loose (fun _ => advance >>= fun _ => (failAt span cause : Parse α)) c :=
  steadyAt_fails (fails_advance.mpr (fails_failAt.mpr rfl)) complete fun _ _ =>
    ⟨_, fails_advance.mpr (fails_failAt.mpr rfl)⟩

theorem steady_selectorAt {start : Span} {t : Token} : Steady n follow loose (fun _ => selectorAt start t) := by
  unfold selectorAt
  split
  · cases integerValue? t.value with
    | some i => exact .advance (.spanFrom fun span => resumable_pure)
    | none => exact fun c _ => steadyAt_advance_fails rfl
  · exact .advance (.spanFrom fun span => resumable_pure)
  · exact steady_unexpected

theorem resumable_selector {start : Span} : Resumable n follow [.name] loose (fun _ => selector start) := by
  have stopped {c : Cursor} (none : c.rest = []) : (selector start).run c =
      (unexpected "expected tuple index or field name after '.'" : Parse Tail).run c := by
    rw [selector, run_get, none]
  refine .of_needy (fun c some => ?_) (fun c e none fails => ?_) (fun c a d none gives => ?_) ?_ rfl
  · obtain ⟨t, us, rest⟩ := List.exists_cons_of_ne_nil some
    have steady : SteadyAt n follow loose (fun _ => selectorAt start t) c := steady_selectorAt c some
    refine steady.of_runs (fun k ts stop _ => ?_) (.here c)
    exact run_selector (by rw [Cursor.rest_followed, rest, List.cons_append])
  · exact ends_unexpected (n := n) c e none ((stopped none).symm.trans fails)
  · exact needy_unexpected (n := n) c a d none ((stopped none).symm.trans gives)
  · intro c ts us rest same _
    obtain ⟨t, rfl, kind⟩ := List.map_eq_singleton_iff.mp same
    refine ⟨.field (start.upTo c.skip.lastSpan) t.value, c.skip, by rw [Cursor.rest_skip, rest]; rfl, 0,
      fun _ _ => (run_selector rest).trans ?_⟩
    rw [selectorAt, kind]
    exact gives_advance.mpr (gives_spanFrom.mpr (gives_pure.mpr ⟨rfl, rfl⟩))

/-- What `scalar?` does at a token. -/
def scalarAt (t : Token) : Parse (Option Literal) :=
  match t.kind with
  | .integer => do
    advance
    match integerValue? t.value with
    | some n => return some (.integer t.span n)
    | none => failAt t.span (.integerTooLarge t.value)
  | .real => do
    advance
    match Real.read? t.value with
    | some x => return some (.real t.span x)
    | none => failAt t.span (.realTooLarge t.value)
  | .string => do
    advance
    return some (.string t.span t.value)
  | .keyword .trueWord => do
    advance
    return some (.boolean t.span true)
  | .keyword .falseWord => do
    advance
    return some (.boolean t.span false)
  | .keyword .emptyWord => do
    advance
    return some (.empty t.span)
  | _ => return none

theorem run_scalar {t : Token} {ts : List Token} (rest : c.rest = t :: ts) :
    scalar?.run c = (scalarAt t).run c := by
  rw [scalar?, run_get, rest]
  rfl

/-- A token is a literal, is none or is one out of range, whatever follows. -/
theorem scalar_cases (some : c.rest ≠ []) :
    (∃ l, ∀ ts stop, Gives scalar? (c.followed ts stop) (.some l) (c.skip.followed ts stop)) ∨
      (∀ ts stop, Gives scalar? (c.followed ts stop) none (c.followed ts stop)) ∨
      ∃ e, e.incomplete = false ∧ ∀ ts stop, Fails scalar? (c.followed ts stop) e := by
  obtain ⟨t, us, rest⟩ := List.exists_cons_of_ne_nil some
  have run (ts : List Token) (stop : Span) :
      scalar?.run (c.followed ts stop) = (scalarAt t).run (c.followed ts stop) :=
    run_scalar (by rw [Cursor.rest_followed, rest, List.cons_append])
  unfold Gives Fails
  simp only [run, ← Cursor.skip_followed some]
  unfold scalarAt
  split
  · cases integerValue? t.value with
    | some n => exact .inl ⟨.integer t.span n, fun _ _ => rfl⟩
    | none => exact .inr (.inr ⟨⟨t.span, .integerTooLarge t.value⟩, rfl, fun _ _ => rfl⟩)
  · cases Real.read? t.value with
    | some x => exact .inl ⟨.real t.span x, fun _ _ => rfl⟩
    | none => exact .inr (.inr ⟨⟨t.span, .realTooLarge t.value⟩, rfl, fun _ _ => rfl⟩)
  · exact .inl ⟨.string t.span t.value, fun _ _ => rfl⟩
  · exact .inl ⟨.boolean t.span true, fun _ _ => rfl⟩
  · exact .inl ⟨.boolean t.span false, fun _ _ => rfl⟩
  · exact .inl ⟨.empty t.span, fun _ _ => rfl⟩
  · exact .inr (.inl fun _ _ => rfl)

/-- A literal of one token, or else the other step. -/
theorem Steady.scalar {F : Family Literal} (next : Steady n follow loose F) :
    Steady n follow loose (fun k => scalar? >>= fun l =>
      match l with
      | some l => pure l
      | none => F k) := by
  intro c some
  obtain ⟨l, gives⟩ | gives | ⟨e, complete, fails⟩ := scalar_cases some
  · refine steadyAt_gives (a := l) c.onward_skip fun k ts stop _ => ?_
    exact (gives_bind_of (gives ts stop)).mpr (gives_pure.mpr ⟨rfl, rfl⟩)
  · exact (next c some).of_runs (fun k ts stop _ => (gives ts stop).run_bind) (.here c)
  · have now := fails [] c.stop
    rw [Cursor.followed_nil] at now
    exact .of_fails (fails_bind.mpr (.inl now))
      (.refused complete fun k ts stop _ => ⟨e, fails_bind.mpr (.inl (fails ts stop))⟩)

theorem scalar_end (none : c.rest = []) : Gives scalar? c .none c := by
  rw [scalar?, gives_get, none]
  exact gives_pure.mpr ⟨rfl, rfl⟩

theorem EndsIncomplete.scalar {F : Family Literal} (next : EndsIncomplete n F) :
    EndsIncomplete n (fun k => scalar? >>= fun l =>
      match l with
      | some l => pure l
      | none => F k) :=
  fun c e none fails => next c e none ((scalar_end none).fails_bind.mp fails)

end Words

section Shortest

variable {p : Primary}

/-- What none of the tokens is before which an expression can end. -/
structure Exit (kind : Token.Kind) : Prop where
  untested : kind ≠ .keyword .isWord
  operator : binaryOp? kind = none
  comma : kind ≠ .mark .comma
  dot : kind ≠ .mark .dot
  bracket : kind ≠ .mark .leftBracket
  paren : kind ≠ .mark .leftParen

theorem exit_of_mem {kind : Token.Kind} (mem : kind ∈ targetExits) : Exit kind := by
  have all : ∀ kind ∈ targetExits, kind ≠ .keyword .isWord ∧ binaryOp? kind = none ∧ kind ≠ .mark .comma ∧
      kind ≠ .mark .dot ∧ kind ≠ .mark .leftBracket ∧ kind ≠ .mark .leftParen := by decide
  obtain ⟨untested, operator, comma, dot, bracket, paren⟩ := all kind mem
  exact ⟨untested, operator, comma, dot, bracket, paren⟩

theorem Parses.operand_of_primary (parses : Parses (.primary p) c d) (sign : unaryOp? (c.kindAt 0) = none)
    (after : d.kindAt 0 ∈ exits) : Parses (.operand (.mk (c.spanTo d) none p none)) c d :=
  .operand (.noSign sign) parses (.noTest (exit_of_mem (List.mem_cons_of_mem _ after)).untested)

theorem Parses.expression_of_primary (parses : Parses (.primary p) c d)
    (sign : unaryOp? (c.kindAt 0) = none) (after : d.kindAt 0 ∈ exits) :
    Parses (.expression (.mk (c.spanTo d) [.mk (c.spanTo d) none p none] [])) c d :=
  .expression (parses.operand_of_primary sign after) (.noOperator (exit_of_mem (List.mem_cons_of_mem _ after)).operator)

/-- One token that is a phrase by itself. -/
theorem reads_token {α : Type} {F : Family α} {kind : Token.Kind}
    (parses : ∀ c : Cursor, c.kindAt 0 = kind → c.skip.kindAt 0 ∈ follow →
      ∃ a m, ∀ k, m ≤ k → Gives (F k) c a c.skip) : Reads follow [kind] F := by
  intro c ts us rest same fits
  obtain ⟨t, rfl, rfl⟩ := List.map_eq_singleton_iff.mp same
  have left : c.skip.rest = us := by
    rw [Cursor.rest_skip, rest]
    rfl
  obtain ⟨a, least⟩ := parses c (by rw [c.kindAt_eq_leads, rest]; rfl) (by rwa [Cursor.kindAt_eq_leads, left])
  exact ⟨a, c.skip, left, least⟩

theorem Parses.reaches {ph : Phrase} (parses : Parses ph c d) (closed : ph.Closed [] d) :
    ∀ k, 16 * c.rest.length + 4 ≤ k → ph.Given k [] c d :=
  fun k more => (reached_of_parses parses).given k closed more

theorem parses_true (next : c.kindAt 0 = .keyword .trueWord) :
    Parses (.primary (.literal (c.spanTo c.skip) (.boolean c.nextSpan true))) c c.skip :=
  .constant (.trueWord next)

theorem parses_name (next : c.kindAt 0 = .name) (after : c.skip.kindAt 0 ∈ exits) :
    Parses (.primary (.ref (c.spanTo c.skip) c.value [])) c c.skip := by
  have exit := exit_of_mem (List.mem_cons_of_mem _ after)
  exact .reference next (.noTail exit.dot exit.bracket exit.paren)

theorem reads_primary : Reads exits [.keyword .trueWord] primary :=
  reads_token fun _ next _ => ⟨_, _, (parses_true next).reaches trivial⟩

theorem reads_operand : Reads exits [.keyword .trueWord] operand :=
  reads_token fun _ next after =>
    ⟨_, _, ((parses_true next).operand_of_primary (by rw [next]; rfl) after).reaches trivial⟩

theorem reads_expression : Reads exits [.keyword .trueWord] expression :=
  reads_token fun _ next after =>
    ⟨_, _, ((parses_true next).expression_of_primary (by rw [next]; rfl) after).reaches trivial⟩

theorem reads_name : Reads exits [.name] expression :=
  reads_token fun _ next after =>
    ⟨_, _, ((parses_name next after).expression_of_primary (by rw [next]; rfl) after).reaches trivial⟩

theorem reads_expressionList : Reads exits [.keyword .trueWord] expressionList := by
  refine reads_token fun c next after => ⟨_, _, Parses.reaches (.lastExpression
    ((parses_true next).expression_of_primary (by rw [next]; rfl) after) ?_) trivial⟩
  exact (exit_of_mem (List.mem_cons_of_mem _ after)).comma

theorem reads_none {α : Type} {F : Family α}
    (parses : ∀ c : Cursor, c.kindAt 0 ∈ follow → ∃ a m, ∀ k, m ≤ k → Gives (F k) c a c) :
    Reads follow [] F := by
  intro c ts us rest same fits
  obtain rfl := List.map_eq_nil_iff.mp same
  obtain ⟨a, least⟩ := parses c (by rwa [c.kindAt_eq_leads, rest])
  exact ⟨a, c, rest, least⟩

theorem reads_operators : Reads exits [] moreOperands :=
  reads_none fun _ next =>
    ⟨_, _, (Parses.noOperator (exit_of_mem (List.mem_cons_of_mem _ next)).operator).reaches trivial⟩

theorem reads_tails : Reads targetExits [] tails :=
  reads_none fun _ next =>
    ⟨_, _, (Parses.noTail (exit_of_mem next).dot (exit_of_mem next).bracket (exit_of_mem next).paren).reaches trivial⟩

theorem gives_tail_none {k : Nat} (next : Exit (c.kindAt 0)) : Gives (tail? (k + 1)) c none c := by
  rw [tail?, gives_here, gives_accept, if_neg next.dot, if_neg Bool.false_ne_true, gives_accept,
    if_neg next.bracket, if_neg Bool.false_ne_true, gives_accept, if_neg next.paren,
    if_neg Bool.false_ne_true]
  exact gives_pure.mpr ⟨rfl, rfl⟩

theorem reads_tail : Reads targetExits [] tail? := by
  refine reads_none fun c next => ⟨none, 1, fun k more => ?_⟩
  obtain ⟨k, rfl⟩ : ∃ j, k = j + 1 := ⟨k - 1, by omega⟩
  exact gives_tail_none (exit_of_mem next)

theorem reads_elements : Reads [.mark .rightBrace] [] tupleElements :=
  reads_none fun _ next => ⟨_, _, (Parses.noElement (List.mem_singleton.mp next)).reaches trivial⟩

theorem reads_names : Reads [.mark .rightParen] [] parameterNames :=
  reads_none fun _ next => ⟨_, _, (Parses.noName (List.mem_singleton.mp next)).reaches trivial⟩

variable {closing : List Token.Kind}

theorem reads_statements (within : closing ⊆ closers) : Reads closing [] (statements · closing) :=
  reads_none fun c next => ⟨[], 16 * c.rest.length + 3, fun k more =>
    reached_of_parses (.noStatement (within next)) k closing within next more⟩

theorem reads_body (within : closing ⊆ closers) : Reads closing [] (body · closing) :=
  reads_none fun c next => ⟨_, 16 * c.rest.length + 4, fun k more =>
    reached_of_parses (.body (.noStatement (within next))) k closing within next more⟩

theorem reads_declarations : Reads closers [.name] declarations := by
  have other : ∀ kind ∈ closers, kind ≠ .mark .comma ∧ kind ≠ .mark .assign := by decide
  refine reads_token fun c next after => ⟨_, _, Parses.reaches (.lastDeclaration next (.noInitial ?_) ?_) trivial⟩
  · exact (other _ after).2
  · exact fun both => (other _ after).1 both.1

theorem reads_parameters : Reads (.mark .arrow :: exits) [] parameters :=
  .accept reads_pure (by decide)

section Composed

variable {start : Span}

theorem reads_functionLiteral :
    Reads exits [.mark .arrow, .keyword .trueWord] (functionLiteral · start) :=
  .succ (functionLiteral.eq_2 start) (reads_parameters.bind (fun _ =>
    .accept (.accepted (reads_expression.bind (fun _ => .spanFrom fun _ => reads_pure) (by decide)))
      (by decide)) (by decide))

theorem reads_branch :
    Reads closers [.keyword .trueWord, .keyword .thenWord, .keyword .endWord] (branch · start) := by
  refine .succ (branch.eq_2 start) (reads_expression.bind (fun _ => .expectWord ?_) (by decide))
  refine (reads_body (by decide)).bind (fun _ => .accept (.andThen (fun _ => reads_pure) fun _ => ?_) ?_) ?_
  · exact .expectWord (.spanFrom fun _ => reads_pure)
  · decide
  · decide

theorem reads_forLoop :
    Reads closers [.name, .keyword .inWord, .keyword .trueWord, .mark .dotDot, .keyword .trueWord,
      .keyword .loopWord, .keyword .endWord] (forLoop · start) := by
  refine .succ (forLoop.eq_2 start) (.expectName fun _ => .expectWord (reads_expression.bind (fun _ =>
    .expectMark (reads_expression.bind (fun _ => .expectWord ?_) (by decide))) (by decide)))
  exact (reads_body (by decide)).bind (fun _ => .expectWord (.spanFrom fun _ => reads_pure)) (by decide)

theorem reads_whileLoop :
    Reads closers [.keyword .trueWord, .keyword .loopWord, .keyword .endWord] (whileLoop · start) := by
  refine .succ (whileLoop.eq_2 start) (reads_expression.bind (fun _ => .expectWord ?_) (by decide))
  exact (reads_body (by decide)).bind (fun _ => .expectWord (.spanFrom fun _ => reads_pure)) (by decide)

end Composed

end Shortest

section Needy

theorem needy_of_least {α : Type} {F : Family α} (phrase : α → Phrase)
    (given : ∀ {c d a}, Gives (F n) c a d → (phrase a).Given n [] c d)
    (least : ∀ a, (phrase a).least = 1) : Needy n F := by
  intro c a d none gives
  have shorter := ((understood (n + 1)).phrase (phrase a) (given gives)).length_le
  rw [least, none, List.length_nil] at shorter
  omega

theorem needy_expression : Needy n expression := needy_of_least .expression id fun _ => rfl

theorem needy_expressionList : Needy n expressionList := needy_of_least .expressions id fun _ => rfl

theorem needy_operand : Needy n operand := needy_of_least .operand id fun _ => rfl

theorem needy_primary : Needy n primary := needy_of_least .primary id fun _ => rfl

theorem needy_literal : Needy n literal := needy_of_least .literal id fun _ => rfl

theorem needy_declarations : Needy n declarations := needy_of_least .declarations id fun _ => rfl

theorem needy_elements : Needy n tupleElements := by
  intro c es d none gives
  have parses := (understood (n + 1)).phrase (.elements es) gives
  cases parses with
  | noElement next => simp [c.kindAt_end none] at next
  | lastElement label value | anotherElement label value =>
    have shorter := label.length_le
    have shorter' := value.length_le
    simp only [Phrase.least, none, List.length_nil] at shorter shorter'
    omega

theorem needy_names : Needy n parameterNames := by
  intro c xs d none gives
  have parses := (understood (n + 1)).phrase (.names xs) gives
  cases parses with
  | noName next | lastName next | anotherName next => simp [c.kindAt_end none] at next

/-- Statements stop at a closing token, so not at the end of input if that is none. -/
theorem needy_statements {closing : List Token.Kind} (within : closing ⊆ closers)
    (inner : .endOfInput ∉ closing) : Needy n (statements · closing) := by
  intro c ss d none gives
  have shorter := (understood _ n n.lt_succ_self closing within (.statements ss) c d gives).length_le
  have last : d.rest = [] := by
    rw [← List.length_eq_zero_iff]
    simp only [Phrase.least, none, List.length_nil] at shorter
    omega
  have closed := closed_of_gives gives
  rw [d.kindAt_end last] at closed
  exact inner closed

theorem needy_body {closing : List Token.Kind} (within : closing ⊆ closers) (inner : .endOfInput ∉ closing) :
    Needy n (body · closing) := by
  intro c b d none gives
  cases n with
  | zero => exact not_gives_exhausted gives
  | succ n =>
    change Gives (body (n + 1) closing) c b d at gives
    rw [body, gives_here, gives_bind] at gives
    obtain ⟨ss, m, gives, -⟩ := gives
    exact needy_statements within inner c ss m none gives

end Needy

/-- What `declarations` does after a declaration. -/
def goOn (d : Statement) : Family (List Statement) := fun k => do
  let c ← get
  if c.kindAt 0 = .mark .comma && c.kindAt 1 = .name then
    advance
    return d :: (← declarations k)
  else return [d]

theorem run_goOn {d : Statement} {k : Nat} (another : c.kindAt 0 = .mark .comma ∧ c.kindAt 1 = .name) :
    (goOn d k).run c = (declarations k >>= fun ds => pure (d :: ds)).run c.skip := by
  rw [goOn, run_get, if_pos (by simpa using another)]
  rfl

theorem gives_goOn {d : Statement} {k : Nat} (last : ¬ (c.kindAt 0 = .mark .comma ∧ c.kindAt 1 = .name)) :
    Gives (goOn d k) c [d] c := by
  rw [goOn, gives_get, if_neg (by simpa using last), gives_pure]
  exact ⟨rfl, rfl⟩

/-- A declaration list leaves a comma that stands last, though it takes one that a name follows. -/
def LoneComma (ts : List Token) : Prop := ∃ t, ts = [t] ∧ t.kind = .mark .comma

theorem statement_comma (comma : c.kindAt 0 = .mark .comma) :
    (statement (n + 1)).run c = (unexpected "expected statement" : Parse (List Statement)).run c := by
  have gives : Gives peek c (.mark .comma) c := by
    rw [← comma]
    rfl
  rw [statement, Gives.run_bind (rfl : Gives here c c.nextSpan c), gives.run_bind]

theorem statements_of_comma {closing : List Token.Kind} (comma : c.kindAt 0 = .mark .comma)
    (going : .mark .comma ∉ closing) :
    (statements (n + 1) closing).run c =
      (statement n >>= fun first => statements n closing >>= fun ss => pure (first ++ ss)).run c := by
  have gives : Gives peek c (.mark .comma) c := by
    rw [← comma]
    rfl
  rw [statements, (gives_accept_not (by rw [comma]; rintro ⟨⟩)).run_bind, if_neg Bool.false_ne_true,
    gives.run_bind, if_neg (by simpa using going), if_neg (by rintro ⟨⟩)]

/-- Statements that start with a comma which stands last fail, and the error blames the comma. -/
theorem statements_lone_comma {closing : List Token.Kind} (within : closing ⊆ closers)
    (lone : LoneComma c.rest) :
    (∀ {ss d}, ¬ Gives (statements n closing) c ss d) ∧
      ∀ {e}, Fails (statements n closing) c e → e.cause = .stepsExhausted ∨ Halved c.rest e := by
  obtain ⟨t, rest, kind⟩ := lone
  have comma : c.kindAt 0 = .mark .comma := by
    rw [c.kindAt_eq_leads, rest, ← kind]
    rfl
  have going : .mark .comma ∉ closing := fun closed => absurd (within closed) (by decide)
  cases n with
  | zero => exact ⟨not_gives_exhausted, fun fails => .inl (fails_exhausted fails)⟩
  | succ n =>
    have run := statements_of_comma (n := n) comma going
    have first : (∀ {ss d}, ¬ Gives (statement n) c ss d) ∧
        ∀ {e}, Fails (statement n) c e → e.cause = .stepsExhausted ∨ Halved c.rest e := by
      cases n with
      | zero => exact ⟨not_gives_exhausted, fun fails => .inl (fails_exhausted fails)⟩
      | succ n =>
        have run := statement_comma (n := n) comma
        refine ⟨fun gives => gives_unexpected (run.symm.trans gives), fun fails => .inr ?_⟩
        have same := fails_unexpected.mp (run.symm.trans fails)
        rw [Cursor.nextSpan, rest] at same
        subst same
        exact ⟨t, by rw [rest]; rfl, rfl, .inl ⟨kind, rfl⟩⟩
    constructor
    · intro ss d gives
      obtain ⟨s, m, gives, -⟩ := gives_bind.mp (run.symm.trans gives)
      exact first.1 gives
    · intro e fails
      obtain fails | ⟨s, m, gives, -⟩ := fails_bind.mp (run.symm.trans fails)
      · exact first.2 fails
      · exact absurd gives first.1

section Label

variable {G : Text → Family (List Element)}

theorem run_label_no {k : Nat} (next : ¬ (c.kindAt 0 = .name ∧ c.skip.kindAt 0 = .mark .assign)) :
    (elementName >>= fun name => G name k).run c = (G [] k).run c :=
  (reached_label (.noLabel next)).run_bind

theorem run_label {k : Nat} (next : c.kindAt 0 = .name) (assign : c.skip.kindAt 0 = .mark .assign) :
    (elementName >>= fun name => G name k).run c = (G c.value k).run c.skip.skip :=
  (reached_label (.label next assign)).run_bind

theorem steadyAt_label (next : ∀ name, Resumable n [.mark .rightBrace] [.keyword .trueWord] never (G name))
    (some : c.rest ≠ []) (more : c.kindAt 0 = .name → c.skip.rest ≠ []) :
    SteadyAt n [.mark .rightBrace] never (fun k => elementName >>= fun name => G name k) c := by
  by_cases labelled : c.kindAt 0 = .name ∧ c.skip.kindAt 0 = .mark .assign
  · obtain ⟨name, assign⟩ := labelled
    refine ((next c.value).at (c.live_skip some).skip).of_runs (fun k ts stop _ => ?_)
      (c.onward_skip.trans c.skip.onward_skip)
    rw [run_label, Cursor.value_followed some, Cursor.skip_followed some, Cursor.skip_followed (more name)]
    · rwa [c.kindAt_followed some]
    · rwa [Cursor.skip_followed some, c.skip.kindAt_followed (more name)]
  · refine ((next []).at (.inl some)).of_runs (fun k ts stop _ => run_label_no ?_) (.here c)
    rw [c.kindAt_followed some, Cursor.skip_followed some]
    rintro ⟨name, assign⟩
    rw [c.skip.kindAt_followed (more name)] at assign
    exact labelled ⟨name, assign⟩

/-- A name that stands last may be a label or an expression. It is completed as a label, and what follows an
expression does not make it one. -/
theorem steadyAt_lone_name
    (next : ∀ name, Resumable n [.mark .rightBrace] [.keyword .trueWord] never (G name))
    (shrinks : ∀ {c d es}, Gives (G [] n) c es d → d.rest.length < c.rest.length)
    (alone : Reads [.mark .rightBrace] [.name] (G [])) (name : c.kindAt 0 = .name) (lone : c.skip.rest = []) :
    SteadyAt n [.mark .rightBrace] never (fun k => elementName >>= fun name => G name k) c := by
  obtain ⟨t, rest, kind, -⟩ := c.rest_eq_of_kind name nofun
  rw [lone] at rest
  have some : c.rest ≠ [] := by simp [rest]
  have inner := (next []).at (.inl some)
  have now : (elementName >>= fun name => G name n).run c = (G [] n).run c := by
    refine run_label_no fun labelled => ?_
    rw [c.skip.kindAt_end lone] at labelled
    cases labelled.2
  constructor
  case onward => exact fun gives => inner.onward (now.symm.trans gives)
  case stays =>
    intro es d gives tight ts fits stop k le
    have shorter := shrinks (now.symm.trans gives)
    have none : d.rest = [] := by
      rw [rest] at shorter
      exact List.length_eq_zero_iff.mp (by simpa using shorter)
    refine (run_label_no ?_).trans (inner.stays (now.symm.trans gives) tight fits stop le)
    rw [Cursor.skip_followed some, Cursor.kindAt_followed_end lone, List.mem_singleton.mp (fits none)]
    nofun
  case verdict =>
    intro e fails
    cases inner.verdict (now.symm.trans fails) with
    | starved cause => exact .starved cause
    | halved last =>
      obtain ⟨t', last, -, ⟨comma, -⟩ | ⟨bracket, -⟩⟩ := last
      all_goals
        rw [rest] at last
        cases last
        simp_all
    | refused complete always =>
      let close : Token := ⟨.mark .rightBrace, [], c.stop⟩
      obtain ⟨es, d, -, least, gives⟩ := alone (c.followed [close] c.stop) [t] [close]
        (by rw [Cursor.rest_followed, rest]) (by rw [← kind]; rfl) (List.mem_singleton.mpr rfl)
      obtain ⟨e', fails'⟩ := always (max n least) [close] c.stop (Nat.le_max_left n least)
      exact absurd fails' (gives _ (Nat.le_max_right n least)).not_fails
    | unfinished incomplete more =>
      refine .unfinished incomplete ⟨[.mark .assign, .keyword .trueWord], rfl, fun ts us stop same fits => ?_⟩
      obtain ⟨colon, ts, rfl, assign, kinds⟩ := List.map_eq_cons_iff.mp same
      have after : (c.followed (colon :: ts ++ us) stop).skip.rest = colon :: (ts ++ us) := by
        rw [Cursor.skip_followed some, Cursor.rest_followed, lone]
        rfl
      obtain ⟨es, d, left, least, gives⟩ := (next (c.followed (colon :: ts ++ us) stop).value).reads
        (c.followed (colon :: ts ++ us) stop).skip.skip ts us (by rw [Cursor.rest_skip, after]; rfl) kinds fits
      refine ⟨es, d, left, least, fun k le => (run_label ?_ ?_).trans (gives k le)⟩
      · rwa [c.kindAt_followed some]
      · rw [Cursor.kindAt_eq_leads, after, ← assign]
        rfl

/-- What `tupleElements` does after the label of an element. -/
def afterLabel (start : Span) (name : Text) : Family (List Element) := fun k => do
  let value ← expression k
  let e := Element.mk (← spanFrom start) name value
  if ← accept (.mark .comma) then return e :: (← tupleElements k)
  else return [e]

theorem reads_afterLabel {start : Span} {name : Text} :
    Reads [.mark .rightBrace] [.name] (afterLabel start name) :=
  reads_name.bind (fun value => .spanFrom fun span => .accept reads_pure (by decide)) (by decide)

theorem afterLabel_shrinks {start : Span} {name : Text} {es : List Element}
    (gives : Gives (afterLabel start name n) c es d) : d.rest.length < c.rest.length := by
  have understood := understood (n + 1)
  simp [-bind_pure_comp, afterLabel] at gives
  obtain ⟨value, m, first, gives⟩ := gives
  have shorter := (understood.phrase (.expression value) first).length_le
  simp only [Phrase.least] at shorter
  split at gives
  next comma =>
    obtain ⟨es, rest, rfl⟩ := gives
    have shorter' := (understood.phrase (.elements es) rest).length_le
    rw [Cursor.length_skip] at shorter'
    simp only [Phrase.least] at shorter'
    omega
  next =>
    obtain ⟨rfl, rfl⟩ := gives
    omega

end Label

/-- What holds of every function of the parser with `n` steps. -/
structure Whole (n : Nat) : Prop where
  expression : Resumable n exits [.keyword .trueWord] never expression
  operators : Resumable n exits [] never moreOperands
  expressions : Resumable n exits [.keyword .trueWord] never expressionList
  operand : Resumable n exits [.keyword .trueWord] never operand
  primary : Resumable n exits [.keyword .trueWord] never primary
  variablePrimary : Steady n targetExits never variablePrimary
  tails : Resumable n targetExits [] never tails
  tail : Resumable n targetExits [] never tail?
  literal : Steady n exits never literal
  literalEnds : EndsIncomplete n Parser.literal
  elements : Resumable n [.mark .rightBrace] [] never tupleElements
  function (start : Span) :
    Resumable n exits [.mark .arrow, .keyword .trueWord] never (functionLiteral · start)
  names : Resumable n [.mark .rightParen] [] never parameterNames
  statements {closing : List Token.Kind} (within : closing ⊆ closers) :
    Resumable n closing [] never (statements · closing)
  body {closing : List Token.Kind} (within : closing ⊆ closers) (inner : .endOfInput ∉ closing) :
    Resumable n closing [] never (body · closing)
  statement : Steady n closers LoneComma statement
  declarations : Resumable n closers [.name] LoneComma declarations
  assignment : Steady n closers never assignment
  branch (start : Span) :
    Resumable n closers [.keyword .trueWord, .keyword .thenWord, .keyword .endWord] never (branch · start)
  forLoop (start : Span) :
    Resumable n closers [.name, .keyword .inWord, .keyword .trueWord, .mark .dotDot, .keyword .trueWord,
      .keyword .loopWord, .keyword .endWord] never (forLoop · start)
  whileLoop (start : Span) :
    Resumable n closers [.keyword .trueWord, .keyword .loopWord, .keyword .endWord] never (whileLoop · start)

namespace Whole

theorem zero : Whole 0 where
  expression := .zero rfl reads_expression rfl
  operators := .zero rfl reads_operators rfl
  expressions := .zero rfl reads_expressionList rfl
  operand := .zero rfl reads_operand rfl
  primary := .zero rfl reads_primary rfl
  variablePrimary := .zero rfl
  tails := .zero rfl reads_tails rfl
  tail := .zero rfl reads_tail rfl
  literal := .zero rfl
  literalEnds := .zero rfl
  elements := .zero rfl reads_elements rfl
  function _ := .zero rfl reads_functionLiteral rfl
  names := .zero rfl reads_names rfl
  statements within := .zero rfl (reads_statements within) rfl
  body within _ := .zero rfl (reads_body within) rfl
  statement := .zero rfl
  declarations := .zero rfl reads_declarations rfl
  assignment := .zero rfl
  branch _ := .zero rfl reads_branch rfl
  forLoop _ := .zero rfl reads_forLoop rfl
  whileLoop _ := .zero rfl reads_whileLoop rfl

theorem literalEnds_succ : EndsIncomplete (n + 1) Parser.literal :=
  .succ literal.eq_2 (.here fun start => .scalar
    (((ends_unexpected.accept (by rintro ⟨⟩)).accept (by rintro ⟨⟩)).accept (by rintro ⟨⟩)))

section Succ

variable (whole : Whole n)

include whole

theorem expression_succ : Resumable (n + 1) exits [.keyword .trueWord] never Parser.expression := by
  refine .of_needy (.succ expression.eq_2 ?_) (.succ expression.eq_2 ?_) needy_expression reads_expression rfl
  · exact .here fun start => whole.operand.steady.bind (fun x =>
      whole.operators.bind (fun more => .spanFrom fun span => resumable_pure) (by decide)) (by decide)
  · exact .here fun start => whole.operand.ends.bind_needy needy_operand

theorem operators_succ : Resumable (n + 1) exits [] never moreOperands := by
  refine .succ moreOperands.eq_2 (.peek (fun kind => ?_) resumable_pure fun kind fits => ?_)
  · cases binaryOp? kind with
    | none => exact resumable_pure.steady
    | some op =>
      exact .advance (whole.operand.bind (fun x => whole.operators.bind (fun _ => resumable_pure) (by decide))
        (by decide))
  · simp only [List.headD_nil, (exit_of_mem (List.mem_cons_of_mem _ fits)).operator]
    rfl

theorem expressions_succ : Resumable (n + 1) exits [.keyword .trueWord] never expressionList := by
  refine .of_needy (.succ expressionList.eq_2 ?_) (.succ expressionList.eq_2 ?_) needy_expressionList
    reads_expressionList rfl
  · exact whole.expression.steady.bind (fun e =>
      .accept (whole.expressions.bind (fun _ => resumable_pure) (by decide)) resumable_pure (by decide))
      (by decide)
  · exact whole.expression.ends.bind_needy needy_expression

theorem operand_succ : Resumable (n + 1) exits [.keyword .trueWord] never Parser.operand := by
  refine .of_needy (.succ operand.eq_2 ?_) (.succ operand.eq_2 ?_) needy_operand reads_operand rfl
  · exact .here fun start => resumable_unaryOp.steady.bind (fun op => whole.primary.bind (fun p =>
      resumable_typeTest.bind (fun test => .spanFrom fun span => resumable_pure) (by decide))
      (by decide)) (by decide)
  · exact .here fun start => resumable_unaryOp.ends.bind resumable_unaryOp.idle fun op =>
      whole.primary.ends.bind_needy needy_primary

theorem primary_succ : Resumable (n + 1) exits [.keyword .trueWord] never Parser.primary := by
  refine .of_needy (.succ primary.eq_2 ?_) (.succ primary.eq_2 ?_) needy_primary reads_primary rfl
  · refine .here fun start => .peek fun kind => ?_
    cases readKind? kind with
    | some r => exact .advance resumable_pure
    | none =>
      by_cases name : kind = .name
      · simp only [if_pos name]
        exact whole.variablePrimary.mono (by decide)
      by_cases paren : kind = .mark .leftParen
      · simp only [if_neg name, if_pos paren]
        exact .advance (whole.expression.bind (fun inner => .expectMark (.spanFrom fun _ => resumable_pure))
          (by decide))
      · simp only [if_neg name, if_neg paren]
        exact whole.literal.bind (fun l => .spanFrom fun span => resumable_pure) (by decide)
  · exact .here fun start => .peek (whole.literalEnds.bind_needy needy_literal)

theorem variablePrimary_succ : Steady (n + 1) targetExits never Parser.variablePrimary :=
  .succ variablePrimary.eq_2 (.here fun start => (Resumable.expectName fun name =>
    whole.tails.bind (fun ts => .spanFrom fun span => resumable_pure) (by decide)).steady)

theorem tails_succ : Resumable (n + 1) targetExits [] never Parser.tails := by
  refine .succ tails.eq_2 (whole.tail.bind (fun t => ?_) (by decide))
  cases t with
  | some t => exact whole.tails.bind (fun ts => resumable_pure) (by decide)
  | none => exact resumable_pure

/-- Expressions up to a closing mark, or none. -/
theorem bracketed {β : Type} {close : Mark} {context : String} {rest : List Expr → Family β}
    {kinds : List Token.Kind} (exit : .mark close ∈ exits)
    (next : ∀ es, Resumable n follow kinds loose (rest es)) :
    Resumable n follow (.keyword .trueWord :: .mark close :: kinds) loose (fun k => peek >>= fun kind =>
      if kind = .mark close then pure [] >>= fun es => expectMark close context >>= fun _ => rest es k
      else expressionList k >>= fun es => expectMark close context >>= fun _ => rest es k) := by
  have closed (es : List Expr) : Resumable n follow (.mark close :: kinds) loose
      (fun k => expectMark close context >>= fun _ => rest es k) := .expectMark (next es)
  have list := whole.expressions.bind closed
    ⟨(closed []).written, fun _ _ => by rwa [List.headD_cons]⟩
  refine .peek (fun kind => ?_) ?_ ?_
  · by_cases same : kind = .mark close
    · simp only [if_pos same]
      exact (closed []).steady
    · simp only [if_neg same]
      exact list.steady
  · exact list
  · intro kind _
    rfl

theorem tail_succ : Resumable (n + 1) targetExits [] never Parser.tail? := by
  have end_exit {c : Cursor} (none : c.rest = []) : Exit (c.kindAt 0) := by
    rw [c.kindAt_end none]
    exact exit_of_mem (by decide)
  constructor
  case needy => exact fun some => absurd rfl some
  constructor
  case steady =>
    exact .succ tail?.eq_2 (.here fun start => .accept
      (.andThen (fun _ => resumable_selector) (fun _ => resumable_pure) rfl) (.accept
      (whole.expression.bind (fun key => .expectMark (.spanFrom fun span => resumable_pure)) (by decide))
      (.accept (whole.bracketed (by decide) fun es => .spanFrom fun span => resumable_pure)
        resumable_pure.steady)))
  case idle =>
    intro c t d none gives
    obtain ⟨rfl, rfl⟩ := gives.unique (gives_tail_none (end_exit none))
    refine ⟨rfl, fun live ts stop k fits more => ?_⟩
    obtain ⟨k, rfl⟩ : ∃ j, k = j + 1 := ⟨k - 1, by omega⟩
    refine gives_tail_none ?_
    rw [Cursor.kindAt_followed_end none]
    exact exit_of_mem fits
  case ends => exact fun c e none fails => absurd fails (gives_tail_none (end_exit none)).not_fails
  case reads => exact reads_tail
  case written => rfl

theorem names_succ : Resumable (n + 1) [.mark .rightParen] [] never parameterNames := by
  refine .of_needy (.succ parameterNames.eq_2 (.peek fun kind => ?_)) (.succ parameterNames.eq_2 (.peek ?_))
    needy_names reads_names rfl
  · by_cases close : kind = .mark .rightParen
    · simp only [if_pos close]
      exact resumable_pure.steady
    · simp only [if_neg close]
      exact (Resumable.expectName fun name => .accept (whole.names.bind (fun xs => resumable_pure) (by decide))
        resumable_pure (by decide)).steady
  · exact .expectName

/-- What follows the word `func`. -/
theorem resumable_parameters : Resumable n (.mark .arrow :: exits) [] never parameters :=
  .accept (whole.names.bind (fun xs => .expectMark resumable_pure) (by decide)) resumable_pure (by decide)

theorem function_succ (start : Span) :
    Resumable (n + 1) exits [.mark .arrow, .keyword .trueWord] never (functionLiteral · start) :=
  .succ (functionLiteral.eq_2 start) (whole.resumable_parameters.bind (fun xs =>
    .accept ((whole.body (by decide) (by decide)).bind
      (fun b => .expectWord (.spanFrom fun span => resumable_pure)) (by decide))
    (.acceptElse (whole.expression.bind (fun e => .spanFrom fun span => resumable_pure) (by decide)) rfl)
    (by decide)) (by decide))

theorem literal_succ : Steady (n + 1) exits never Parser.literal :=
  .succ literal.eq_2 (.here fun start => .scalar (.accept
    (whole.bracketed (by decide) fun es => .spanFrom fun span => resumable_pure) (.accept
    (whole.elements.bind (fun es => .expectMark (.spanFrom fun span => resumable_pure)) (by decide)) (.accept
    (whole.function start) steady_unexpected))))

variable {closing : List Token.Kind}

theorem body_succ (within : closing ⊆ closers) (inner : .endOfInput ∉ closing) :
    Resumable (n + 1) closing [] never (Parser.body · closing) := by
  have ss := whole.statements within
  refine .of_needy (.succ (body.eq_2 closing) (.here fun start => ?_)) (.succ (body.eq_2 closing) (.here fun start => ?_))
    (needy_body within inner) (reads_body within) rfl
  · refine ss.steady.bind (fun ss => show Resumable n closing [] never _ from ?_) ⟨rfl, fun _ fits => fits⟩
    by_cases none : ss.isEmpty = true
    · simp only [if_pos none]
      exact resumable_pure
    · simp only [if_neg none]
      exact .spanFrom fun span => resumable_pure
  · exact ss.ends.bind_needy (needy_statements within inner)

theorem branch_succ (start : Span) :
    Resumable (n + 1) closers [.keyword .trueWord, .keyword .thenWord, .keyword .endWord] never
      (Parser.branch · start) :=
  .succ (branch.eq_2 start) (whole.expression.bind (fun condition => .expectWord
    ((whole.body (by decide) (by decide)).bind (fun yes => .accept
      ((whole.body (by decide) (by decide)).bind (fun no => .expectWord (.spanFrom fun span => resumable_pure))
        (by decide))
      (.expectWord (.spanFrom fun span => resumable_pure)) (by decide)) (by decide))) (by decide))

theorem forLoop_succ (start : Span) :
    Resumable (n + 1) closers [.name, .keyword .inWord, .keyword .trueWord, .mark .dotDot,
      .keyword .trueWord, .keyword .loopWord, .keyword .endWord] never (Parser.forLoop · start) :=
  .succ (forLoop.eq_2 start) (.expectName fun counter => .expectWord (whole.expression.bind (fun low =>
    .expectMark (whole.expression.bind (fun high => .expectWord
      ((whole.body (by decide) (by decide)).bind (fun b => .expectWord (.spanFrom fun span => resumable_pure))
        (by decide))) (by decide))) (by decide)))

theorem whileLoop_succ (start : Span) :
    Resumable (n + 1) closers [.keyword .trueWord, .keyword .loopWord, .keyword .endWord] never
      (Parser.whileLoop · start) :=
  .succ (whileLoop.eq_2 start) (whole.expression.bind (fun condition => .expectWord
    ((whole.body (by decide) (by decide)).bind (fun b => .expectWord (.spanFrom fun span => resumable_pure))
      (by decide))) (by decide))

/-- The optional value after `return`. -/
theorem returned {β : Type} {rest : Expr → Family β} (next : ∀ e, Resumable n closers [] loose (rest e)) :
    Resumable n closers [] loose (fun k => peek >>= fun kind =>
      if startsExpression kind = true then Parser.expression k >>= fun e => rest e k
      else pure .missing >>= fun e => rest e k) := by
  have other : ∀ kind ∈ closers, startsExpression kind = false := by decide
  refine .peek (fun kind => ?_) (next .missing) (fun kind fits => ?_)
  · by_cases starts : startsExpression kind = true
    · simp only [if_pos starts]
      exact whole.expression.steady.bind next (by decide)
    · simp only [if_neg starts]
      exact (next .missing).steady
  · simp only [List.headD_nil, other kind fits]
    rfl

theorem statement_succ : Steady (n + 1) closers LoneComma Parser.statement := by
  refine .succ statement.eq_2 (.here fun start => .peek fun kind => ?_)
  split
  · exact .advance whole.declarations
  · exact .advance ((whole.branch start).bind (fun s => resumable_pure) (by decide))
  · exact .advance ((whole.forLoop start).bind (fun s => resumable_pure) (by decide))
  · exact .advance ((whole.whileLoop start).bind (fun s => resumable_pure) (by decide))
  · exact .advance (whole.expressions.bind (fun es => .spanFrom fun span => resumable_pure) (by decide))
  · exact .advance (whole.returned fun value => .spanFrom fun span => resumable_pure)
  · exact .advance resumable_pure
  · exact .advance resumable_pure
  · exact whole.assignment.bind (fun s => resumable_pure) (by decide)
  · exact steady_unexpected

/-- What follows the target of an assignment: a value, or what `stop` does if there is no operator. -/
theorem assigned {β : Type} {value : AssignOp → Expr → Family β} {stop : Family β}
    (next : ∀ op e, Resumable n closers [] never (value op e)) (steady : Steady n closers never stop)
    (ends : EndsIncomplete n stop) (idle : Needy n stop ∨ Idle n closers stop) :
    Continuable n closers [.mark .assign, .keyword .trueWord] never (fun k => peek >>= fun kind =>
      match assignOp? kind with
      | some op => advance >>= fun _ => Parser.expression k >>= fun e => value op e k
      | none => stop k) := by
  have other : ∀ kind ∈ closers, assignOp? kind = none := by decide
  refine .peek (fun kind => ?_) ends (idle.imp_right fun idle => ⟨idle, fun kind fits => ?_⟩)
    (fun kind fits => ?_) rfl
  · cases assignOp? kind with
    | some op => exact .advance (whole.expression.bind (next op) (by decide))
    | none => exact steady
  · simp only [other kind fits]
    rfl
  · exact .advance (reads_expression.bind (fun e => (next .set e).reads) (by decide))

theorem assignment_succ : Steady (n + 1) closers never Parser.assignment := by
  refine .succ assignment.eq_2 (.here fun start => fun c some => ?_)
  refine (whole.variablePrimary c some).bind_of (.inl some)
    (fun target => show Continuable n closers [.mark .assign, .keyword .trueWord] never _ from ?_) rfl
    (by decide) (fun _ => .inl (by decide)) (fun _ _ _ _ _ _ => id) (fun _ _ _ bad _ => bad.elim)
  cases target with
  | ref span name ts =>
    by_cases call : endsInCall ts = true
    · simp only [if_pos call]
      have effect : Resumable n closers [] never (fun _ => spanFrom start >>= fun place =>
          pure (Statement.assign place (.ref span name ts) none .missing)) :=
        .spanFrom fun place => resumable_pure
      exact whole.assigned (fun op e => .spanFrom fun place => resumable_pure) effect.steady effect.ends
        (.inr effect.idle)
    · simp only [if_neg call]
      exact whole.assigned (fun op e => .spanFrom fun span => resumable_pure) steady_unexpected
        ends_unexpected (.inl needy_unexpected)
  | _ =>
    exact whole.assigned (fun op e => .spanFrom fun span => resumable_pure) steady_unexpected
      ends_unexpected (.inl needy_unexpected)

theorem resumable_goOn (d : Statement) : Resumable n closers [] LoneComma (goOn d) := by
  have other : ∀ kind ∈ closers, kind ≠ .mark .comma := by decide
  constructor
  case needy => exact fun some => absurd rfl some
  constructor
  case steady =>
    intro c some
    by_cases another : c.kindAt 0 = .mark .comma ∧ c.kindAt 1 = .name
    · have more : c.skip.rest ≠ [] := by
        intro last
        rw [c.kindAt_one, c.skip.kindAt_end last] at another
        cases another.2
      have later : SteadyAt n closers LoneComma
          (fun k => Parser.declarations k >>= fun ds => pure (d :: ds)) c.skip := by
        refine (whole.declarations.steady c.skip more).bind_of (.inl more)
          (fun ds => resumable_pure.toContinuable) rfl (by decide)
          (fun _ => .inl (List.Subset.refl closers)) (fun ds m b e gives tight => ?_)
          (fun ds m e _ fails => absurd fails not_fails_pure)
        rwa [← (gives_pure.mp gives).2]
      refine later.of_runs (fun k ts stop _ => ?_) c.onward_skip
      rw [← Cursor.skip_followed some]
      refine run_goOn ?_
      rwa [c.kindAt_followed some, Cursor.kindAt_one, Cursor.skip_followed some,
        c.skip.kindAt_followed more, ← Cursor.kindAt_one]
    · have now {k : Nat} := gives_goOn (d := d) (k := k) another
      constructor
      case onward =>
        intro ss e gives
        rw [(gives.unique now).2]
        exact .here c
      case verdict => exact fun fails => absurd fails now.not_fails
      case stays =>
        intro ss e gives tight ts fits stop k more
        obtain ⟨rfl, rfl⟩ := now.unique gives
        refine gives_goOn ?_
        rw [Cursor.kindAt_followed some, Cursor.kindAt_one, Cursor.skip_followed some]
        rintro ⟨comma, name⟩
        obtain ⟨t, rest, kind, -⟩ := c.rest_eq_of_kind comma nofun
        by_cases lone : c.skip.rest = []
        · exact tight ⟨t, by rw [rest, lone], kind⟩
        · rw [Cursor.kindAt_followed lone, ← Cursor.kindAt_one] at name
          exact another ⟨comma, name⟩
  case idle =>
    intro c ss e none gives
    obtain ⟨rfl, rfl⟩ := gives.unique (gives_goOn (by simp [c.kindAt_end none]))
    refine ⟨rfl, fun live ts stop k fits more => gives_goOn ?_⟩
    rw [Cursor.kindAt_followed_end none]
    exact fun both => other _ fits both.1
  case ends => exact fun c e none fails => absurd fails (gives_goOn (by simp [c.kindAt_end none])).not_fails
  case reads => exact reads_none fun c next => ⟨[d], 0, fun k _ => gives_goOn fun both => other _ next both.1⟩
  case written => rfl

theorem declarations_succ : Resumable (n + 1) closers [.name] LoneComma Parser.declarations :=
  .of_needy
    (.succ declarations.eq_2 (.here fun start => (Resumable.expectName fun name => .accept
      (whole.expression.bind (fun e => .spanFrom fun span => whole.resumable_goOn (.declare span name e))
        (by decide))
      (.spanFrom fun span => whole.resumable_goOn (.declare span name .missing)) (by decide)).steady))
    (.succ declarations.eq_2 (.here fun start => .expectName)) needy_declarations reads_declarations rfl

theorem statements_succ (within : closing ⊆ closers) :
    Resumable (n + 1) closing [] never (Parser.statements · closing) := by
  have other : ∀ kind ∈ closers, kind ≠ .mark .semicolon := by decide
  refine .succ (statements.eq_2 closing) (.accept (whole.statements within) ⟨.peek (fun kind => ?_) ?_ ?_ ?_ rfl,
    fun some => absurd rfl some⟩ ⟨by rintro ⟨⟩, fun kind fits => other kind (within fits)⟩)
  · by_cases closed : closing.contains kind = true
    · simp only [if_pos closed]
      exact resumable_pure.steady
    by_cases stop : kind = .endOfInput
    · simp only [if_neg closed, if_pos stop]
      exact steady_unexpected
    · simp only [if_neg closed, if_neg stop]
      intro c some
      refine (whole.statement c some).bind_of (.inl some)
        (fun first => ((whole.statements within).bind (fun ss => resumable_pure) ⟨rfl, fun _ => id⟩).toContinuable)
        rfl within (fun _ => .inl within) (fun first m ss d gives _ comma => ?_)
        (fun first m e comma fails => ?_)
      · obtain ⟨ss, e, gives, -⟩ := gives_bind.mp gives
        exact (statements_lone_comma within comma).1 gives
      · obtain fails | ⟨ss, e, gives, -⟩ := fails_bind.mp fails
        · exact (statements_lone_comma within comma).2 fails
        · exact absurd gives (statements_lone_comma within comma).1
  · by_cases inner : closing.contains .endOfInput = true
    · simp only [if_pos inner]
      exact ends_pure
    · simp only [if_neg inner]
      exact ends_unexpected
  · by_cases inner : closing.contains .endOfInput = true
    · refine .inr ⟨?_, fun kind fits => ?_⟩
      · simp only [if_pos inner]
        exact idle_pure
      · simp only [if_pos inner, if_pos (List.contains_iff_mem.mpr fits)]
    · simp only [if_neg inner]
      exact .inl needy_unexpected
  · intro kind fits
    have closed : closing.contains kind = true := List.contains_iff_mem.mpr fits
    change Reads closing [] (fun k => if closing.contains kind = true then pure [] else _)
    simp only [if_pos closed]
    exact reads_pure

theorem resumable_afterLabel (start : Span) (name : Text) :
    Resumable n [.mark .rightBrace] [.keyword .trueWord] never (afterLabel start name) :=
  whole.expression.bind (fun value => .spanFrom fun span => .accept
    (whole.elements.bind (fun es => resumable_pure) (by decide)) resumable_pure (by decide)) (by decide)

theorem elements_succ : Resumable (n + 1) [.mark .rightBrace] [] never tupleElements := by
  refine .of_needy (.succ tupleElements.eq_2 (.peek fun kind => ?_)) (.succ tupleElements.eq_2 (.peek ?_))
    needy_elements reads_elements rfl
  · by_cases close : kind = .mark .rightBrace
    · simp only [if_pos close]
      exact resumable_pure.steady
    simp only [if_neg close]
    refine .here fun start => fun c some => ?_
    by_cases lone : c.kindAt 0 = .name ∧ c.skip.rest = []
    · exact steadyAt_lone_name (whole.resumable_afterLabel start) afterLabel_shrinks reads_afterLabel
        lone.1 lone.2
    · exact steadyAt_label (whole.resumable_afterLabel start) some fun name last => lone ⟨name, last⟩
  · refine .here fun start => fun c e none fails => ?_
    have unlabelled : Gives elementName c [] c := reached_label (.noLabel (by simp [c.kindAt_end none]))
    exact (whole.resumable_afterLabel start []).ends c e none (unlabelled.fails_bind.mp fails)

theorem succ : Whole (n + 1) where
  expression := whole.expression_succ
  operators := whole.operators_succ
  expressions := whole.expressions_succ
  operand := whole.operand_succ
  primary := whole.primary_succ
  variablePrimary := whole.variablePrimary_succ
  tails := whole.tails_succ
  tail := whole.tail_succ
  literal := whole.literal_succ
  literalEnds := literalEnds_succ
  elements := whole.elements_succ
  function := whole.function_succ
  names := whole.names_succ
  statements := whole.statements_succ
  body := whole.body_succ
  statement := whole.statement_succ
  declarations := whole.declarations_succ
  assignment := whole.assignment_succ
  branch := whole.branch_succ
  forLoop := whole.forLoop_succ
  whileLoop := whole.whileLoop_succ

end Succ

end Whole

/-- Every function of the parser keeps to what it has read, and can be completed at the end of input. -/
theorem whole (n : Nat) : Whole n := by
  induction n with
  | zero => exact .zero
  | succ n ih => exact ih.succ

end CellScript.Parser
