import CellScript.Proofs.Parsing.Spans

/-! Where the parser stands in the list of tokens. Every function of the parser that starts before some
token ends before that one or a later one, or blames one of these: so it never leaves the list, whose
last token is the end of input. What it looks at are tokens of the list. -/
namespace CellScript.Parser

variable {ts : Lexer.Tokens} {i j : Nat} {c d : Cursor}

namespace Cursor

/-- What is seen from before a token are tokens of the list: the end of input, which stands last, also
stands for everything beyond it. -/
structure Looks (ts : Lexer.Tokens) (i : Nat) (c : Cursor) : Prop where
  ahead : ∀ k, ∃ t, ts.toList[min (i + k) ts.tokens.length]? = some t ∧ t.kind = c.kindAt k
  next : ∃ t, ts.toList[i]? = some t ∧ t.span = c.nextSpan
  behind : ∃ t, ts.toList[i - 1]? = some t ∧ t.span = c.lastSpan

namespace At

theorem ahead (here : c.At ts i) (k : Nat) :
    ∃ t, ts.toList[min (i + k) ts.tokens.length]? = some t ∧ t.kind = c.kindAt k := by
  unfold kindAt Lexer.Tokens.toList
  rw [here.rest, List.getElem?_drop]
  obtain within | beyond := Nat.lt_or_ge (i + k) ts.tokens.length
  · rw [Nat.min_eq_left within.le, List.getElem?_append_left within, List.getElem?_eq_getElem within]
    exact ⟨_, rfl, rfl⟩
  · rw [Nat.min_eq_right beyond, List.getElem?_append_right le_rfl, Nat.sub_self,
      List.getElem?_eq_none beyond]
    exact ⟨_, rfl, rfl⟩

theorem looks (here : c.At ts i) : c.Looks ts i where
  ahead := here.ahead
  next := by
    obtain ⟨t, found, -, span⟩ := here.next
    exact ⟨t, found, span⟩
  behind := by
    cases i with
    | succ i => exact here.behind
    | zero =>
      obtain ⟨t, found, -, span⟩ := here.next
      refine ⟨t, found, ?_⟩
      rw [span, lastSpan, here.last]
      rfl

theorem found (here : c.At ts i) {t : Token} {rest : List Token} (next : c.rest = t :: rest) :
    ts.toList[i]? = some t := by
  have first : ts.tokens[i]? = some t := by
    rw [← List.head?_drop, ← here.rest, next]
    rfl
  rw [Lexer.Tokens.toList, List.getElem?_append_left (List.getElem?_eq_some_iff.mp first).1, first]

/-- The next token is passed over, unless it is the end of input. -/
theorem advance (here : c.At ts i) : c.skip.At ts (min (i + 1) ts.tokens.length) := by
  obtain bound | rfl := here.bound.lt_or_eq
  · rw [Nat.min_eq_left bound]
    obtain ⟨t, -, rest, taken⟩ := here.token bound
    have step : c.skip = ⟨ts.tokens.drop (i + 1), some t.span, ts.endSpan⟩ := by
      rw [Cursor.skip, rest, here.stop]
    rw [step]
    exact ⟨rfl, by simp [taken], rfl, bound⟩
  · have none : c.rest = [] := by rw [here.rest, List.drop_length]
    rwa [Nat.min_eq_right (Nat.le_succ _), skip_end none]

end At

end Cursor

/-- The error is about a token of the list: the one of this number or a later one. -/
def Error.Blames (ts : Lexer.Tokens) (i : Nat) (e : Error) : Prop :=
  ∃ j t, i ≤ j ∧ ts.toList[j]? = some t ∧ e.span = t.span

theorem Error.Blames.mono {e : Error} (blames : e.Blames ts j) (le : i ≤ j) : e.Blames ts i := by
  obtain ⟨k, t, later, found, span⟩ := blames
  exact ⟨k, t, le.trans later, found, span⟩

/-- From the cursor the step ends before a token of the list or blames one, and none before this one. -/
structure StaysAt {α : Type} (ts : Lexer.Tokens) (step : Parse α) (i : Nat) (c : Cursor) : Prop where
  gives {a : α} {d : Cursor} (gives : Gives step c a d) : ∃ j, i ≤ j ∧ d.At ts j
  fails {e : Error} (fails : Fails step c e) : e.Blames ts i

/-- Wherever it starts, the step stays in the list and does not go back. -/
def Stays {α : Type} (ts : Lexer.Tokens) (step : Parse α) : Prop := ∀ i c, c.At ts i → StaysAt ts step i c

section Combinators

variable {α β : Type} {a : α}

theorem StaysAt.mono {step : Parse α} (stays : StaysAt ts step j c) (le : i ≤ j) : StaysAt ts step i c where
  gives given := by
    obtain ⟨k, later, there⟩ := stays.gives given
    exact ⟨k, le.trans later, there⟩
  fails failed := (stays.fails failed).mono le

theorem StaysAt.get {next : Cursor → Parse β} (stays : StaysAt ts (next c) i c) :
    StaysAt ts (MonadState.get >>= next) i c :=
  ⟨fun given => stays.gives (gives_get.mp given), fun failed => stays.fails (fails_get.mp failed)⟩

/-- The next token is blamed after it has been read. -/
theorem StaysAt.blame {t : Token} {cause : Cause} (found : ts.toList[i]? = some t) :
    StaysAt ts (advance >>= fun _ => failAt t.span cause : Parse α) i c where
  gives given := absurd (gives_advance.mp given) gives_failAt
  fails failed := by
    rw [fails_failAt.mp (fails_advance.mp failed)]
    exact ⟨i, t, le_rfl, found, rfl⟩

namespace Stays

/-- A step that only looks. -/
theorem of_run {step : Parse α} {f : Cursor → α} (run : ∀ c, step.run c = .ok (f c, c)) : Stays ts step := by
  intro i c here
  have only : Gives step c (f c) c := run c
  refine ⟨fun {a d} given => ?_, fun {e} failed => absurd failed only.not_fails⟩
  obtain ⟨-, rfl⟩ := given.unique only
  exact ⟨i, le_rfl, here⟩

theorem pure : Stays ts (Pure.pure a : Parse α) := of_run fun _ => rfl

theorem get : Stays ts (MonadState.get : Parse Cursor) := of_run fun _ => rfl

theorem peek : Stays ts Parser.peek := of_run fun _ => rfl

theorem here : Stays ts Parser.here := of_run fun _ => rfl

theorem spanFrom {start : Span} : Stays ts (Parser.spanFrom start) := of_run fun _ => rfl

theorem advance : Stays ts Parser.advance := by
  intro i c at_
  have only : Gives Parser.advance c () c.skip := rfl
  refine ⟨fun {a d} given => ?_, fun {e} failed => absurd failed only.not_fails⟩
  obtain ⟨-, rfl⟩ := given.unique only
  have bound := at_.bound
  exact ⟨min (i + 1) ts.tokens.length, by omega, at_.advance⟩

theorem unexpected {what : String} : Stays ts (Parser.unexpected what : Parse α) := by
  intro i c at_
  refine ⟨fun {a d} given => absurd given gives_unexpected, fun {e} failed => ?_⟩
  obtain ⟨t, found, -, span⟩ := at_.next
  rw [fails_unexpected.mp failed]
  exact ⟨i, t, le_rfl, found, span.symm⟩

theorem exhausted {cause : Cause} :
    Stays ts (Parser.here >>= fun span => failAt span cause : Parse α) := by
  intro i c at_
  refine ⟨fun {a d} given => absurd (gives_here.mp given) gives_failAt, fun {e} failed => ?_⟩
  obtain ⟨t, found, -, span⟩ := at_.next
  rw [fails_failAt.mp (fails_here.mp failed)]
  exact ⟨i, t, le_rfl, found, span.symm⟩

theorem bind {step : Parse α} {next : α → Parse β} (first : Stays ts step) (second : ∀ a, Stays ts (next a)) :
    Stays ts (step >>= next) := by
  intro i c at_
  have stays := first i c at_
  constructor
  · intro b d given
    obtain ⟨a, m, given, later⟩ := gives_bind.mp given
    obtain ⟨j, le, between⟩ := stays.gives given
    exact ((second a j m between).mono le).gives later
  · intro e failed
    obtain failed | ⟨a, m, given, failed⟩ := fails_bind.mp failed
    · exact stays.fails failed
    · obtain ⟨j, le, between⟩ := stays.gives given
      exact ((second a j m between).mono le).fails failed

theorem ite {p : Prop} [Decidable p] {yes no : Parse α} (first : Stays ts yes) (second : Stays ts no) :
    Stays ts (if p then yes else no) := by
  split
  · exact first
  · exact second

/-- Two ways to a value with which the step goes on. -/
theorem choice {p : Prop} [Decidable p] {yes no : Parse α} {next : α → Parse β} (first : Stays ts yes)
    (second : Stays ts no) (rest : ∀ a, Stays ts (next a)) :
    Stays ts (if p then yes >>= next else no >>= next) :=
  .ite (.bind first rest) (.bind second rest)

theorem accept {kind : Token.Kind} : Stays ts (Parser.accept kind) :=
  .bind peek fun _ => .ite (.bind advance fun _ => pure) pure

theorem expect {kind : Token.Kind} {name context : String} : Stays ts (Parser.expect kind name context) := by
  refine .bind get fun c => ?_
  cases c.rest with
  | nil => exact unexpected
  | cons t rest => exact .ite (.bind advance fun _ => pure) unexpected

theorem expectMark {m : Mark} {context : String} : Stays ts (Parser.expectMark m context) :=
  .bind expect fun _ => pure

theorem expectWord {k : Keyword} {context : String} : Stays ts (Parser.expectWord k context) :=
  .bind expect fun _ => pure

theorem expectName {context : String} : Stays ts (Parser.expectName context) := expect

/-! ### Steps of a few tokens -/

theorem unaryOp : Stays ts Parser.unaryOp := by
  refine .bind peek fun kind => ?_
  cases unaryOp? kind with
  | none => exact pure
  | some op => exact .bind advance fun _ => pure

theorem typeName : Stays ts Parser.typeName := by
  refine .bind get fun c => ?_
  split
  · exact .bind advance fun _ => pure
  · exact .bind advance fun _ => .bind advance fun _ => pure
  · exact .bind advance fun _ => .bind advance fun _ => pure
  · exact unexpected

theorem typeTest : Stays ts Parser.typeTest :=
  .bind accept fun _ => .ite (.bind typeName fun _ => pure) pure

theorem elementName : Stays ts Parser.elementName := by
  refine .bind get fun c => ?_
  split
  · exact .ite (.bind advance fun _ => .bind advance fun _ => pure) pure
  · exact pure

theorem scalar : Stays ts scalar? := by
  intro i c here
  refine .get ?_
  split
  next => exact pure i c here
  next t rest next =>
    have found := here.found next
    split
    · cases integerValue? t.value with
      | none => exact .blame found
      | some n => exact bind advance (fun _ => pure) i c here
    · cases Real.read? t.value with
      | none => exact .blame found
      | some x => exact bind advance (fun _ => pure) i c here
    · exact bind advance (fun _ => pure) i c here
    · exact bind advance (fun _ => pure) i c here
    · exact bind advance (fun _ => pure) i c here
    · exact bind advance (fun _ => pure) i c here
    · exact pure i c here

theorem selector {start : Span} : Stays ts (Parser.selector start) := by
  intro i c here
  refine .get ?_
  split
  next t rest next =>
    have found := here.found next
    split
    · cases integerValue? t.value with
      | none => exact .blame found
      | some n => exact bind advance (fun _ => .bind spanFrom fun _ => pure) i c here
    · exact bind advance (fun _ => .bind spanFrom fun _ => pure) i c here
    · exact unexpected i c here
  next => exact unexpected i c here

theorem parameters {n : Nat} (names : Stays ts (parameterNames n)) : Stays ts (Parser.parameters n) :=
  .bind accept fun _ => .ite (.bind names fun _ => .bind expectMark fun _ => pure) pure

end Stays

end Combinators

/-- The functions of the parser. A list of statements is only ever read up to the words that can close one. -/
inductive Routine : Type → Type where
  | expression : Routine Expr
  | moreOperands : Routine (List (BinaryOp × Operand))
  | expressionList : Routine (List Expr)
  | operand : Routine Operand
  | primary : Routine Primary
  | variablePrimary : Routine Primary
  | tails : Routine (List Tail)
  | tail : Routine (Option Tail)
  | literal : Routine Literal
  | tupleElements : Routine (List Element)
  | functionLiteral (start : Span) : Routine Literal
  | parameterNames : Routine (List Text)
  | parameters : Routine (List Text)
  | statements (closing : List Token.Kind) (known : closing ⊆ closers) : Routine (List Statement)
  | body (closing : List Token.Kind) (known : closing ⊆ closers) : Routine Body
  | statement : Routine (List Statement)
  | declarations : Routine (List Statement)
  | assignment : Routine Statement
  | branch (start : Span) : Routine Statement
  | forLoop (start : Span) : Routine Statement
  | whileLoop (start : Span) : Routine Statement

namespace Routine

variable {α : Type} {n : Nat}

/-- The function with a bound on its steps. -/
def run : {α : Type} → Routine α → Nat → Parse α
  | _, .expression => Parser.expression
  | _, .moreOperands => Parser.moreOperands
  | _, .expressionList => Parser.expressionList
  | _, .operand => Parser.operand
  | _, .primary => Parser.primary
  | _, .variablePrimary => Parser.variablePrimary
  | _, .tails => Parser.tails
  | _, .tail => tail?
  | _, .literal => Parser.literal
  | _, .tupleElements => Parser.tupleElements
  | _, .functionLiteral start => (Parser.functionLiteral · start)
  | _, .parameterNames => Parser.parameterNames
  | _, .parameters => Parser.parameters
  | _, .statements closing _ => (Parser.statements · closing)
  | _, .body closing _ => (Parser.body · closing)
  | _, .statement => Parser.statement
  | _, .declarations => Parser.declarations
  | _, .assignment => Parser.assignment
  | _, .branch start => (Parser.branch · start)
  | _, .forLoop start => (Parser.forLoop · start)
  | _, .whileLoop start => (Parser.whileLoop · start)

/-- Whether the function has read a token if it gives this result: always one for a statement, an
expression, an operand with its sign, a primary and a literal, and one for a tail that is there. -/
def Reads : {α : Type} → Routine α → α → Prop
  | _, .expression, _ | _, .operand, _ | _, .primary, _ | _, .literal, _ | _, .statement, _ => True
  | _, .tail, t => t.isSome
  | _, _, _ => False

theorem endWord_closes : [.keyword .endWord] ⊆ closers := by decide

theorem endOfInput_closes : [.endOfInput] ⊆ closers := by decide

theorem elseWord_closes : [.keyword .elseWord, .keyword .endWord] ⊆ closers := by decide

/-- With one more step a function stays in the list if the functions that it calls do. -/
theorem stays_succ (ih : ∀ {α : Type} (r : Routine α), Stays ts (r.run n)) {α : Type} (r : Routine α) :
    Stays ts (r.run (n + 1)) := by
  have closed : Stays ts (Parser.body n [.keyword .endWord]) := ih (.body _ endWord_closes)
  have names : Stays ts (Parser.parameterNames (n + 1)) :=
    .bind .peek fun _ => .ite .pure (.bind .expectName fun _ => .bind .accept fun _ =>
      .ite (.bind (ih .parameterNames) fun _ => .pure) .pure)
  cases r with
  | expression =>
    exact .bind .here fun _ => .bind (ih .operand) fun _ => .bind (ih .moreOperands) fun _ =>
      .bind .spanFrom fun _ => .pure
  | moreOperands =>
    refine .bind .peek fun kind => ?_
    cases binaryOp? kind with
    | none => exact .pure
    | some op =>
      exact .bind .advance fun _ => .bind (ih .operand) fun _ => .bind (ih .moreOperands) fun _ => .pure
  | expressionList =>
    exact .bind (ih .expression) fun _ => .bind .accept fun _ =>
      .ite (.bind (ih .expressionList) fun _ => .pure) .pure
  | operand =>
    exact .bind .here fun _ => .bind .unaryOp fun _ => .bind (ih .primary) fun _ =>
      .bind .typeTest fun _ => .bind .spanFrom fun _ => .pure
  | primary =>
    refine .bind .here fun _ => .bind .peek fun kind => ?_
    cases readKind? kind with
    | some r => exact .bind .advance fun _ => .pure
    | none =>
      refine .ite (ih .variablePrimary) (.ite (.bind .advance fun _ => ?_) ?_)
      · exact .bind (ih .expression) fun _ => .bind .expectMark fun _ => .bind .spanFrom fun _ => .pure
      · exact .bind (ih .literal) fun _ => .bind .spanFrom fun _ => .pure
  | variablePrimary =>
    exact .bind .here fun _ => .bind .expectName fun _ => .bind (ih .tails) fun _ =>
      .bind .spanFrom fun _ => .pure
  | tails =>
    refine .bind (ih .tail) fun t => ?_
    cases t with
    | none => exact .pure
    | some t => exact .bind (ih .tails) fun _ => .pure
  | tail =>
    refine .bind .here fun _ => .bind .accept fun _ => .ite ?_ (.bind .accept fun _ => .ite ?_
      (.bind .accept fun _ => .ite ?_ .pure))
    · exact .bind .selector fun _ => .pure
    · exact .bind (ih .expression) fun _ => .bind .expectMark fun _ => .bind .spanFrom fun _ => .pure
    · exact .bind .peek fun _ => .choice .pure (ih .expressionList) fun _ =>
        .bind .expectMark fun _ => .bind .spanFrom fun _ => .pure
  | literal =>
    refine .bind .here fun start => .bind .scalar fun l => ?_
    cases l with
    | some l => exact .pure
    | none =>
      refine .bind .accept fun _ => .ite ?_ (.bind .accept fun _ => .ite ?_
        (.bind .accept fun _ => .ite (ih (.functionLiteral start)) .unexpected))
      · exact .bind .peek fun _ => .choice .pure (ih .expressionList) fun _ =>
          .bind .expectMark fun _ => .bind .spanFrom fun _ => .pure
      · exact .bind (ih .tupleElements) fun _ => .bind .expectMark fun _ => .bind .spanFrom fun _ => .pure
  | tupleElements =>
    exact .bind .peek fun _ => .ite .pure (.bind .here fun _ => .bind .elementName fun _ =>
      .bind (ih .expression) fun _ => .bind .spanFrom fun _ => .bind .accept fun _ =>
        .ite (.bind (ih .tupleElements) fun _ => .pure) .pure)
  | functionLiteral start =>
    refine .bind (ih .parameters) fun _ => .bind .accept fun _ => .ite ?_ (.bind .accept fun _ =>
      .ite ?_ .unexpected)
    · exact .bind closed fun _ => .bind .expectWord fun _ => .bind .spanFrom fun _ => .pure
    · exact .bind (ih .expression) fun _ => .bind .spanFrom fun _ => .pure
  | parameterNames => exact names
  | parameters => exact names.parameters
  | statements closing known =>
    refine .bind .accept fun _ => .ite (ih (.statements closing known)) (.bind .peek fun _ =>
      .ite .pure (.ite .unexpected ?_))
    exact .bind (ih .statement) fun _ => .bind (ih (.statements closing known)) fun _ => .pure
  | body closing known =>
    exact .bind .here fun _ => .bind (ih (.statements closing known)) fun _ =>
      .choice .pure .spanFrom fun _ => .pure
  | statement =>
    refine .bind .here fun start => .bind .peek fun kind => ?_
    split
    · exact .bind .advance fun _ => ih .declarations
    · exact .bind .advance fun _ => .bind (ih (.branch start)) fun _ => .pure
    · exact .bind .advance fun _ => .bind (ih (.forLoop start)) fun _ => .pure
    · exact .bind .advance fun _ => .bind (ih (.whileLoop start)) fun _ => .pure
    · exact .bind .advance fun _ => .bind (ih .expressionList) fun _ => .bind .spanFrom fun _ => .pure
    · exact .bind .advance fun _ => .bind .peek fun _ => .choice (ih .expression) .pure fun _ =>
        .bind .spanFrom fun _ => .pure
    · exact .bind .advance fun _ => .pure
    · exact .bind .advance fun _ => .pure
    · exact .bind (ih .assignment) fun _ => .pure
    · exact .unexpected
  | declarations =>
    refine .bind .here fun _ => .bind .expectName fun _ => .bind .accept fun _ =>
      .choice (ih .expression) .pure fun _ => .bind .spanFrom fun _ => .bind .get fun _ => .ite ?_ .pure
    exact .bind .advance fun _ => .bind (ih .declarations) fun _ => .pure
  | assignment =>
    refine .bind .here fun _ => .bind (ih .variablePrimary) fun target => .bind .peek fun kind => ?_
    cases assignOp? kind with
    | some op => exact .bind .advance fun _ => .bind (ih .expression) fun _ => .bind .spanFrom fun _ => .pure
    | none =>
      cases target with
      | ref => exact .ite (.bind .spanFrom fun _ => .pure) .unexpected
      | _ => exact .unexpected
  | branch start =>
    exact .bind (ih .expression) fun _ => .bind .expectWord fun _ =>
      .bind (ih (.body _ elseWord_closes)) fun _ => .bind .accept fun _ =>
        .choice closed .pure fun _ => .bind .expectWord fun _ => .bind .spanFrom fun _ => .pure
  | forLoop start =>
    exact .bind .expectName fun _ => .bind .expectWord fun _ => .bind (ih .expression) fun _ =>
      .bind .expectMark fun _ => .bind (ih .expression) fun _ => .bind .expectWord fun _ =>
        .bind closed fun _ => .bind .expectWord fun _ => .bind .spanFrom fun _ => .pure
  | whileLoop start =>
    exact .bind (ih .expression) fun _ => .bind .expectWord fun _ => .bind closed fun _ =>
      .bind .expectWord fun _ => .bind .spanFrom fun _ => .pure

theorem stays {α : Type} (r : Routine α) (n : Nat) : Stays ts (r.run n) := by
  induction n generalizing α with
  | zero =>
    cases r with
    | parameters => exact Stays.exhausted.parameters
    | _ => exact .exhausted
  | succ n ih => exact stays_succ ih r

/-- With enough steps for the tokens ahead no function runs out of them. -/
theorem lasts {α : Type} (r : Routine α) (enough : 16 * c.rest.length + 5 ≤ n) : Lasts (r.run n) c := by
  have all := supplied n
  cases r with
  | expression => exact all.expression (by omega)
  | moreOperands => exact all.operators (by omega)
  | expressionList => exact all.expressions (by omega)
  | operand => exact all.operand (by omega)
  | primary => exact all.primary (by omega)
  | variablePrimary => exact all.variablePrimary (by omega)
  | tails => exact all.tails (by omega)
  | tail => exact all.tail (by omega)
  | literal => exact all.literal (by omega)
  | tupleElements => exact all.elements (by omega)
  | functionLiteral start => exact all.function start (by omega)
  | parameterNames => exact all.names (by omega)
  | parameters => exact all.parameters (by omega)
  | statements closing known => exact all.statements known (by omega)
  | body closing known => exact all.body known (by omega)
  | statement => exact all.statement (by omega)
  | declarations => exact all.declarations (by omega)
  | assignment => exact all.assignment (by omega)
  | branch start => exact all.branch start (by omega)
  | forLoop start => exact all.forLoop start (by omega)
  | whileLoop start => exact all.whileLoop start (by omega)

theorem shorter {α : Type} {r : Routine α} {a : α} (given : Gives (r.run n) c a d) (reads : r.Reads a) :
    d.rest.length < c.rest.length := by
  cases r with
  | expression => exact taken (.expression a) given
  | operand => exact taken (.operand a) given
  | primary => exact taken (.primary a) given
  | literal => exact taken (.literal a) given
  | statement => exact taken (.statement a) given
  | tail =>
    obtain ⟨t, rfl⟩ := Option.isSome_iff_exists.mp reads
    exact taken (.tail t) given
  | _ => exact reads.elim

end Routine

theorem staysAt_statements {n : Nat} : StaysAt ts (statements n [.endOfInput]) 0 (.ofTokens ts) :=
  (Routine.statements _ Routine.endOfInput_closes).stays n 0 (.ofTokens ts) (.ofTokens ts)

/-- When the parser accepts the tokens, its function for programs has read all of them. -/
theorem gives_program {p : Program} (single : ∀ t ∈ ts.tokens, t.kind ≠ .endOfInput)
    (accepted : parseTokens ts = .ok p) :
    ∃ d, d.At ts ts.tokens.length ∧ Gives (program (16 * (ts.tokens.length + 1))) (.ofTokens ts) p d := by
  obtain ⟨d, given⟩ : ∃ d, Gives (program (16 * (ts.tokens.length + 1))) (.ofTokens ts) p d := by
    unfold parseTokens at accepted
    split at accepted
    next q d given =>
      cases accepted
      exact ⟨d, given⟩
    next => cases accepted
  have inner := given
  rw [program, gives_here] at inner
  obtain ⟨ss, m, read, rest⟩ := gives_bind.mp inner
  rw [gives_spanFrom] at rest
  obtain ⟨-, rfl⟩ := gives_pure.mp rest
  obtain ⟨j, -, there⟩ := staysAt_statements.gives read
  have closed : d.kindAt 0 = .endOfInput := List.mem_singleton.mp (closed_of_gives read)
  obtain bound | rfl := there.bound.lt_or_eq
  · -- a token is left, and the statements end before none but the end of input
    obtain ⟨t, -, next, -⟩ := there.token bound
    have member : t ∈ ts.tokens := List.mem_of_mem_drop (there.rest ▸ next ▸ List.mem_cons_self)
    exact absurd ((Cursor.next_eq next).1.trans closed) (single t member)
  · exact ⟨d, there, given⟩

/-- A list of tokens is read by position, and the end of input stands last and nowhere else. The parser
makes a tree of it or blames one of its tokens, and never runs out of steps; if it makes a tree, it has
read every token before the end of input. Wherever a function of the parser starts, the parser looks at
tokens of the list; the function ends before a token of the list that is the same or a later one, and is
a later one where something was read, or blames one of these tokens. -/
theorem parser_stays_in_list (ts : Lexer.Tokens) (single : ∀ t ∈ ts.tokens, t.kind ≠ .endOfInput) :
    ((∃ p, parseTokens ts = .ok p) ∨
      ∃ e, parseTokens ts = .error e ∧ e.cause ≠ .stepsExhausted ∧ e.Blames ts 0) ∧
    (∀ p, parseTokens ts = .ok p → ∃ d, d.At ts ts.tokens.length ∧
      Gives (program (16 * (ts.tokens.length + 1))) (.ofTokens ts) p d) ∧
    ∀ i c, c.At ts i → c.Looks ts i ∧ ∀ {α : Type} (r : Routine α) n,
      (∀ a d, Gives (r.run n) c a d →
        ∃ j, d.At ts j ∧ i ≤ j ∧ j ≤ ts.tokens.length ∧ (r.Reads a → i < j)) ∧
      ∀ e, Fails (r.run n) c e →
        e.Blames ts i ∧ (16 * (ts.tokens.length - i) + 5 ≤ n → e.cause ≠ .stepsExhausted) := by
  refine ⟨?_, fun p accepted => gives_program single accepted, fun i c here => ⟨here.looks, ?_⟩⟩
  · cases result : parseTokens ts with
    | ok p => exact .inl ⟨p, rfl⟩
    | error e =>
      have failed := parseTokens_eq_error.mp result
      exact .inr ⟨e, rfl, parseTokens_lasts result, staysAt_statements.fails failed⟩
  · intro α r n
    have stays := r.stays n i c here
    have ahead := here.length
    constructor
    · intro a d given
      obtain ⟨j, le, there⟩ := stays.gives given
      refine ⟨j, there, le, there.bound, fun reads => ?_⟩
      have shorter := Routine.shorter given reads
      have left := there.length
      omega
    · intro e failed
      exact ⟨stays.fails failed, fun enough => r.lasts (by omega) e failed⟩

open CellScript.Parser.Example in
/-- A declaration of two names is read to the end. Without the second name the comma is blamed. -/
theorem parser_stays_in_list_pair :
    (∀ t ∈ pair.tokens, t.kind ≠ .endOfInput) ∧
      (∃ p d, parseTokens pair = .ok p ∧ d.At pair pair.tokens.length ∧
        Gives (program (16 * (pair.tokens.length + 1))) (.ofTokens pair) p d) ∧
      ∃ e, parseTokens ⟨cut, .origin⟩ = .error e ∧ e.cause ≠ .stepsExhausted ∧ e.Blames ⟨cut, .origin⟩ 0 := by
  have single : ∀ t ∈ pair.tokens, t.kind ≠ .endOfInput := by decide
  obtain ⟨p, accepted⟩ := pair_accepted
  obtain ⟨-, whole, -⟩ := parser_stays_in_list pair single
  obtain ⟨d, there, given⟩ := whole p accepted
  obtain ⟨e, fails, -⟩ := cut_fails
  obtain ⟨result, -, -⟩ := parser_stays_in_list ⟨cut, .origin⟩ (by decide)
  refine ⟨single, ⟨p, d, accepted, there, given⟩, ?_⟩
  obtain ⟨p, accepted⟩ | failed := result
  · rw [fails] at accepted
    cases accepted
  · exact failed

end CellScript.Parser
