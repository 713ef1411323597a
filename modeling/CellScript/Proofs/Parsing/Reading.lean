import CellScript.Proofs.Parsing.Steps

/-! How the parser reads, without its bound on steps. `Parses` has one rule for each way a construct can
be read, with what the next token has to be. The parser succeeds with a tree exactly if the rules allow
it. -/
namespace CellScript.Parser

/-- A construct of the source with the tree it stands for. -/
inductive Phrase where
  | expression (e : Expr)
  | operators (more : List (BinaryOp × Operand))
  | expressions (es : List Expr)
  | operand (x : Operand)
  | sign (op : Option (Word UnaryOp))
  | test (t : Option (Word TypeName))
  | primary (p : Primary)
  | tails (ts : List Tail)
  | tail (t : Tail)
  | literal (l : Literal)
  | label (name : Text)
  | elements (es : List Element)
  | names (xs : List Text)
  | parameters (xs : List Text)
  | statements (ss : List Statement)
  | body (b : Body)
  | statement (ss : List Statement)
  | initial (e : Expr)
  | declarations (ss : List Statement)

/-- The tokens before which a list of statements can end. -/
def closers : List Token.Kind := [.keyword .elseWord, .keyword .endWord, .endOfInput]

/-- From the first cursor the phrase can be read, up to the second cursor. -/
inductive Parses : Phrase → Cursor → Cursor → Prop where
  | expression {x : Operand} {more : List (BinaryOp × Operand)} {c m d : Cursor}
      (first : Parses (.operand x) c m) (rest : Parses (.operators more) m d) :
    Parses (.expression (.mk (c.spanTo d) (x :: more.map (·.2)) (more.map fun (op, _) => .known op))) c d
  | noOperator {c : Cursor} (next : binaryOp? (c.kindAt 0) = none) : Parses (.operators []) c c
  | operator {op : BinaryOp} {x : Operand} {more : List (BinaryOp × Operand)} {c m d : Cursor}
      (next : binaryOp? (c.kindAt 0) = some op) (right : Parses (.operand x) c.skip m)
      (rest : Parses (.operators more) m d) :
    Parses (.operators ((op, x) :: more)) c d
  | lastExpression {e : Expr} {c d : Cursor} (last : Parses (.expression e) c d)
      (next : d.kindAt 0 ≠ .mark .comma) :
    Parses (.expressions [e]) c d
  | anotherExpression {e : Expr} {es : List Expr} {c m d : Cursor} (first : Parses (.expression e) c m)
      (next : m.kindAt 0 = .mark .comma) (rest : Parses (.expressions es) m.skip d) :
    Parses (.expressions (e :: es)) c d
  | operand {op : Option (Word UnaryOp)} {p : Primary} {t : Option (Word TypeName)} {c a b d : Cursor}
      (sign : Parses (.sign op) c a) (inner : Parses (.primary p) a b) (test : Parses (.test t) b d) :
    Parses (.operand (.mk (c.spanTo d) op p t)) c d
  | noSign {c : Cursor} (next : unaryOp? (c.kindAt 0) = none) : Parses (.sign none) c c
  | sign {op : UnaryOp} {c : Cursor} (next : unaryOp? (c.kindAt 0) = some op) :
    Parses (.sign (some (.known op))) c c.skip
  | noTest {c : Cursor} (next : c.kindAt 0 ≠ .keyword .isWord) : Parses (.test none) c c
  | wordTest {t : TypeName} {c : Cursor} (next : c.kindAt 0 = .keyword .isWord)
      (word : typeWord? (c.skip.kindAt 0) = some t) :
    Parses (.test (some (.known t))) c c.skip.skip
  | arrayTest {c : Cursor} (next : c.kindAt 0 = .keyword .isWord)
      (left : c.skip.kindAt 0 = .mark .leftBracket) (right : c.skip.skip.kindAt 0 = .mark .rightBracket) :
    Parses (.test (some (.known .array))) c c.skip.skip.skip
  | tupleTest {c : Cursor} (next : c.kindAt 0 = .keyword .isWord)
      (left : c.skip.kindAt 0 = .mark .leftBrace) (right : c.skip.skip.kindAt 0 = .mark .rightBrace) :
    Parses (.test (some (.known .tuple))) c c.skip.skip.skip
  | read {r : ReadKind} {c : Cursor} (next : readKind? (c.kindAt 0) = some r) :
    Parses (.primary (.read c.nextSpan (.known r))) c c.skip
  | reference {ts : List Tail} {c d : Cursor} (next : c.kindAt 0 = .name)
      (tails : Parses (.tails ts) c.skip d) :
    Parses (.primary (.ref (c.spanTo d) c.value ts)) c d
  | paren {e : Expr} {c m : Cursor} (left : c.kindAt 0 = .mark .leftParen)
      (inner : Parses (.expression e) c.skip m) (right : m.kindAt 0 = .mark .rightParen) :
    Parses (.primary (.paren (c.spanTo m.skip) e)) c m.skip
  | constant {l : Literal} {c d : Cursor} (value : Parses (.literal l) c d) :
    Parses (.primary (.literal (c.spanTo d) l)) c d
  | noTail {c : Cursor} (dot : c.kindAt 0 ≠ .mark .dot) (bracket : c.kindAt 0 ≠ .mark .leftBracket)
      (paren : c.kindAt 0 ≠ .mark .leftParen) :
    Parses (.tails []) c c
  | anotherTail {t : Tail} {ts : List Tail} {c m d : Cursor} (first : Parses (.tail t) c m)
      (rest : Parses (.tails ts) m d) :
    Parses (.tails (t :: ts)) c d
  | index {i : Int64} {c : Cursor} (dot : c.kindAt 0 = .mark .dot) (next : c.skip.kindAt 0 = .integer)
      (value : integerValue? c.skip.value = some i) :
    Parses (.tail (.index (c.spanTo c.skip.skip) i)) c c.skip.skip
  | field {c : Cursor} (dot : c.kindAt 0 = .mark .dot) (next : c.skip.kindAt 0 = .name) :
    Parses (.tail (.field (c.spanTo c.skip.skip) c.skip.value)) c c.skip.skip
  | subscript {e : Expr} {c m : Cursor} (left : c.kindAt 0 = .mark .leftBracket)
      (key : Parses (.expression e) c.skip m) (right : m.kindAt 0 = .mark .rightBracket) :
    Parses (.tail (.subscript (c.spanTo m.skip) e)) c m.skip
  | emptyCall {c : Cursor} (left : c.kindAt 0 = .mark .leftParen)
      (right : c.skip.kindAt 0 = .mark .rightParen) :
    Parses (.tail (.call (c.spanTo c.skip.skip) [])) c c.skip.skip
  | call {es : List Expr} {c m : Cursor} (left : c.kindAt 0 = .mark .leftParen)
      (arguments : Parses (.expressions es) c.skip m) (right : m.kindAt 0 = .mark .rightParen) :
    Parses (.tail (.call (c.spanTo m.skip) es)) c m.skip
  | integer {i : Int64} {c : Cursor} (next : c.kindAt 0 = .integer)
      (value : integerValue? c.value = some i) :
    Parses (.literal (.integer c.nextSpan i)) c c.skip
  | real {x : Float} {c : Cursor} (next : c.kindAt 0 = .real) (value : Real.read? c.value = some x) :
    Parses (.literal (.real c.nextSpan x)) c c.skip
  | string {c : Cursor} (next : c.kindAt 0 = .string) :
    Parses (.literal (.string c.nextSpan c.value)) c c.skip
  | trueWord {c : Cursor} (next : c.kindAt 0 = .keyword .trueWord) :
    Parses (.literal (.boolean c.nextSpan true)) c c.skip
  | falseWord {c : Cursor} (next : c.kindAt 0 = .keyword .falseWord) :
    Parses (.literal (.boolean c.nextSpan false)) c c.skip
  | emptyWord {c : Cursor} (next : c.kindAt 0 = .keyword .emptyWord) :
    Parses (.literal (.empty c.nextSpan)) c c.skip
  | emptyArray {c : Cursor} (left : c.kindAt 0 = .mark .leftBracket)
      (right : c.skip.kindAt 0 = .mark .rightBracket) :
    Parses (.literal (.array (c.spanTo c.skip.skip) [])) c c.skip.skip
  | array {es : List Expr} {c m : Cursor} (left : c.kindAt 0 = .mark .leftBracket)
      (elements : Parses (.expressions es) c.skip m) (right : m.kindAt 0 = .mark .rightBracket) :
    Parses (.literal (.array (c.spanTo m.skip) es)) c m.skip
  | tuple {es : List Element} {c m : Cursor} (left : c.kindAt 0 = .mark .leftBrace)
      (elements : Parses (.elements es) c.skip m) (right : m.kindAt 0 = .mark .rightBrace) :
    Parses (.literal (.tuple (c.spanTo m.skip) es)) c m.skip
  | function {xs : List Text} {b : Body} {c a m : Cursor} (word : c.kindAt 0 = .keyword .funcWord)
      (params : Parses (.parameters xs) c.skip a) (opening : a.kindAt 0 = .keyword .isWord)
      (inner : Parses (.body b) a.skip m) (closing : m.kindAt 0 = .keyword .endWord) :
    Parses (.literal (.function (c.spanTo m.skip) xs b)) c m.skip
  | lambda {xs : List Text} {e : Expr} {c a d : Cursor} (word : c.kindAt 0 = .keyword .funcWord)
      (params : Parses (.parameters xs) c.skip a) (arrow : a.kindAt 0 = .mark .arrow)
      (result : Parses (.expression e) a.skip d) :
    Parses (.literal (.lambda (c.spanTo d) xs e)) c d
  | noLabel {c : Cursor} (next : ¬ (c.kindAt 0 = .name ∧ c.skip.kindAt 0 = .mark .assign)) :
    Parses (.label []) c c
  | label {c : Cursor} (next : c.kindAt 0 = .name) (assign : c.skip.kindAt 0 = .mark .assign) :
    Parses (.label c.value) c c.skip.skip
  | noElement {c : Cursor} (next : c.kindAt 0 = .mark .rightBrace) : Parses (.elements []) c c
  | lastElement {name : Text} {e : Expr} {c m d : Cursor} (label : Parses (.label name) c m)
      (value : Parses (.expression e) m d) (next : d.kindAt 0 ≠ .mark .comma) :
    Parses (.elements [.mk (c.spanTo d) name e]) c d
  | anotherElement {name : Text} {e : Expr} {es : List Element} {c a m d : Cursor}
      (label : Parses (.label name) c a) (value : Parses (.expression e) a m)
      (next : m.kindAt 0 = .mark .comma) (rest : Parses (.elements es) m.skip d) :
    Parses (.elements (.mk (c.spanTo m) name e :: es)) c d
  | noName {c : Cursor} (next : c.kindAt 0 = .mark .rightParen) : Parses (.names []) c c
  | lastName {c : Cursor} (name : c.kindAt 0 = .name) (next : c.skip.kindAt 0 ≠ .mark .comma) :
    Parses (.names [c.value]) c c.skip
  | anotherName {xs : List Text} {c d : Cursor} (name : c.kindAt 0 = .name)
      (next : c.skip.kindAt 0 = .mark .comma) (rest : Parses (.names xs) c.skip.skip d) :
    Parses (.names (c.value :: xs)) c d
  | noParameters {c : Cursor} (next : c.kindAt 0 ≠ .mark .leftParen) : Parses (.parameters []) c c
  | parameters {xs : List Text} {c m : Cursor} (left : c.kindAt 0 = .mark .leftParen)
      (names : Parses (.names xs) c.skip m) (right : m.kindAt 0 = .mark .rightParen) :
    Parses (.parameters xs) c m.skip
  | noStatement {c : Cursor} (next : c.kindAt 0 ∈ closers) : Parses (.statements []) c c
  | semicolon {ss : List Statement} {c d : Cursor} (next : c.kindAt 0 = .mark .semicolon)
      (rest : Parses (.statements ss) c.skip d) :
    Parses (.statements ss) c d
  | anotherStatement {s ss : List Statement} {c m d : Cursor} (first : Parses (.statement s) c m)
      (rest : Parses (.statements ss) m d) :
    Parses (.statements (s ++ ss)) c d
  | body {ss : List Statement} {c d : Cursor} (inner : Parses (.statements ss) c d) :
    Parses (.body (.mk (if ss.isEmpty then c.nextSpan else c.spanTo d) ss false)) c d
  | declare {ss : List Statement} {c d : Cursor} (word : c.kindAt 0 = .keyword .varWord)
      (inner : Parses (.declarations ss) c.skip d) :
    Parses (.statement ss) c d
  | branch {e : Expr} {yes : Body} {c a m : Cursor} (word : c.kindAt 0 = .keyword .ifWord)
      (condition : Parses (.expression e) c.skip a) (opening : a.kindAt 0 = .keyword .thenWord)
      (inner : Parses (.body yes) a.skip m) (closing : m.kindAt 0 = .keyword .endWord) :
    Parses (.statement [.branch (c.spanTo m.skip) e yes .missing]) c m.skip
  | branches {e : Expr} {yes no : Body} {c a b m : Cursor} (word : c.kindAt 0 = .keyword .ifWord)
      (condition : Parses (.expression e) c.skip a) (opening : a.kindAt 0 = .keyword .thenWord)
      (inner : Parses (.body yes) a.skip b) (otherwise : b.kindAt 0 = .keyword .elseWord)
      (other : Parses (.body no) b.skip m) (closing : m.kindAt 0 = .keyword .endWord) :
    Parses (.statement [.branch (c.spanTo m.skip) e yes no]) c m.skip
  | forLoop {low high : Expr} {inner : Body} {c l h m : Cursor} (word : c.kindAt 0 = .keyword .forWord)
      (counter : c.skip.kindAt 0 = .name) (range : c.skip.skip.kindAt 0 = .keyword .inWord)
      (first : Parses (.expression low) c.skip.skip.skip l) (dots : l.kindAt 0 = .mark .dotDot)
      (last : Parses (.expression high) l.skip h) (opening : h.kindAt 0 = .keyword .loopWord)
      (repeated : Parses (.body inner) h.skip m) (closing : m.kindAt 0 = .keyword .endWord) :
    Parses (.statement [.forLoop (c.spanTo m.skip) c.skip.value low high inner]) c m.skip
  | whileLoop {e : Expr} {inner : Body} {c a m : Cursor} (word : c.kindAt 0 = .keyword .whileWord)
      (condition : Parses (.expression e) c.skip a) (opening : a.kindAt 0 = .keyword .loopWord)
      (repeated : Parses (.body inner) a.skip m) (closing : m.kindAt 0 = .keyword .endWord) :
    Parses (.statement [.whileLoop (c.spanTo m.skip) e inner]) c m.skip
  | print {es : List Expr} {c d : Cursor} (word : c.kindAt 0 = .keyword .printWord)
      (arguments : Parses (.expressions es) c.skip d) :
    Parses (.statement [.print (c.spanTo d) es]) c d
  | ret {c : Cursor} (word : c.kindAt 0 = .keyword .returnWord)
      (next : startsExpression (c.skip.kindAt 0) = false) :
    Parses (.statement [.ret (c.spanTo c.skip) .missing]) c c.skip
  | retValue {e : Expr} {c d : Cursor} (word : c.kindAt 0 = .keyword .returnWord)
      (value : Parses (.expression e) c.skip d) :
    Parses (.statement [.ret (c.spanTo d) e]) c d
  | brk {c : Cursor} (word : c.kindAt 0 = .keyword .breakWord) :
    Parses (.statement [.brk c.nextSpan]) c c.skip
  | cont {c : Cursor} (word : c.kindAt 0 = .keyword .continueWord) :
    Parses (.statement [.cont c.nextSpan]) c c.skip
  | assign {span : Span} {name : Text} {ts : List Tail} {op : AssignOp} {e : Expr} {c m d : Cursor}
      (target : Parses (.primary (.ref span name ts)) c m) (next : assignOp? (m.kindAt 0) = some op)
      (value : Parses (.expression e) m.skip d) :
    Parses (.statement [.assign (c.spanTo d) (.ref span name ts) (some (.known op)) e]) c d
  | effect {span : Span} {name : Text} {ts : List Tail} {c d : Cursor}
      (target : Parses (.primary (.ref span name ts)) c d) (next : assignOp? (d.kindAt 0) = none)
      (last : endsInCall ts) :
    Parses (.statement [.assign (c.spanTo d) (.ref span name ts) none .missing]) c d
  | noInitial {c : Cursor} (next : c.kindAt 0 ≠ .mark .assign) : Parses (.initial .missing) c c
  | initial {e : Expr} {c d : Cursor} (next : c.kindAt 0 = .mark .assign)
      (value : Parses (.expression e) c.skip d) :
    Parses (.initial e) c d
  | lastDeclaration {e : Expr} {c d : Cursor} (name : c.kindAt 0 = .name)
      (initial : Parses (.initial e) c.skip d)
      (next : ¬ (d.kindAt 0 = .mark .comma ∧ d.skip.kindAt 0 = .name)) :
    Parses (.declarations [.declare (c.spanTo d) c.value e]) c d
  | anotherDeclaration {e : Expr} {ss : List Statement} {c m d : Cursor} (name : c.kindAt 0 = .name)
      (initial : Parses (.initial e) c.skip m) (next : m.kindAt 0 = .mark .comma)
      (rest : Parses (.declarations ss) m.skip d) :
    Parses (.declarations (.declare (c.spanTo m) c.value e :: ss)) c d

/-- What the parser's function for a phrase does with a bound on its steps. Statements are read up to one
of the closing tokens. -/
def Phrase.Given (n : Nat) (closing : List Token.Kind) : Phrase → Cursor → Cursor → Prop
  | .expression e, c, d => Gives (Parser.expression n) c e d
  | .operators more, c, d => Gives (moreOperands n) c more d
  | .expressions es, c, d => Gives (expressionList n) c es d
  | .operand x, c, d => Gives (Parser.operand n) c x d
  | .sign op, c, d => Gives unaryOp c op d
  | .test t, c, d => Gives typeTest c t d
  | .primary p, c, d => Gives (Parser.primary n) c p d
  | .tails ts, c, d => Gives (Parser.tails n) c ts d
  | .tail t, c, d => Gives (tail? n) c (some t) d
  | .literal l, c, d => Gives (Parser.literal n) c l d
  | .label name, c, d => Gives elementName c name d
  | .elements es, c, d => Gives (tupleElements n) c es d
  | .names xs, c, d => Gives (parameterNames n) c xs d
  | .parameters xs, c, d => Gives (Parser.parameters n) c xs d
  | .statements ss, c, d => Gives (Parser.statements n closing) c ss d
  | .body b, c, d => Gives (Parser.body n closing) c b d
  | .statement ss, c, d => Gives (Parser.statement n) c ss d
  | .initial e, c, d =>
    Gives (do if ← accept (.mark .assign) then Parser.expression n else pure .missing) c e d
  | .declarations ss, c, d => Gives (Parser.declarations n) c ss d

/-- With fewer steps than the bound the parser reads only what the rules allow. -/
def Understood (n : Nat) : Prop :=
  ∀ m < n, ∀ closing ⊆ closers, ∀ ph c d, Phrase.Given m closing ph c d → Parses ph c d

section Understood

variable {c d : Cursor} {n : Nat}

theorem Understood.phrase (understood : Understood (n + 1)) (ph : Phrase) (given : ph.Given n [] c d) :
    Parses ph c d :=
  understood n n.lt_succ_self [] (List.nil_subset _) ph c d given

theorem Understood.pred (understood : Understood (n + 1)) : Understood n :=
  fun m below => understood m (Nat.lt_succ_of_lt below)

theorem parses_sign {op : Option (Word UnaryOp)} (given : Gives unaryOp c op d) :
    Parses (.sign op) c d := by
  simp only [unaryOp, gives_peek] at given
  split at given
  next next =>
    simp only [gives_advance, gives_pure] at given
    obtain ⟨rfl, rfl⟩ := given
    exact .sign next
  next next =>
    obtain ⟨rfl, rfl⟩ := gives_pure.mp given
    exact .noSign next

theorem parses_test {t : Option (Word TypeName)} (given : Gives typeTest c t d) :
    Parses (.test t) c d := by
  simp only [typeTest, gives_accept] at given
  split at given
  next next =>
    rw [if_pos trivial] at given
    obtain ⟨t, m, word, found⟩ := gives_bind.mp given
    obtain ⟨rfl, rfl⟩ := gives_pure.mp found
    simp only [typeName, gives_get, Cursor.kindAt_one] at word
    split at word
    next named =>
      simp only [gives_advance, gives_pure] at word
      obtain ⟨rfl, rfl⟩ := word
      exact .wordTest next named
    next left right =>
      simp only [gives_advance, gives_pure] at word
      obtain ⟨rfl, rfl⟩ := word
      exact .arrayTest next left right
    next left right =>
      simp only [gives_advance, gives_pure] at word
      obtain ⟨rfl, rfl⟩ := word
      exact .tupleTest next left right
    next => exact absurd word gives_unexpected
  next next =>
    obtain ⟨rfl, rfl⟩ := gives_pure.mp given
    exact .noTest next

theorem parses_label {name : Text} (given : Gives elementName c name d) : Parses (.label name) c d := by
  simp only [elementName, gives_get, Cursor.kindAt_one] at given
  split at given
  next t ts rest =>
    obtain ⟨kind, value, -⟩ := Cursor.next_eq rest
    rw [gives_ite, kind, value] at given
    split at given
    next both =>
      rw [Bool.and_eq_true, decide_eq_true_iff, decide_eq_true_iff] at both
      simp only [gives_advance, gives_pure] at given
      obtain ⟨rfl, rfl⟩ := given
      exact .label both.1 both.2
    next other =>
      rw [Bool.and_eq_true, decide_eq_true_iff, decide_eq_true_iff] at other
      obtain ⟨rfl, rfl⟩ := gives_pure.mp given
      exact .noLabel other
  next rest =>
    obtain ⟨rfl, rfl⟩ := gives_pure.mp given
    exact .noLabel (by simp [Cursor.kindAt, rest])

theorem parses_scalar {l : Option Literal} (given : Gives scalar? c l d) :
    (∃ value, l = some value ∧ Parses (.literal value) c d) ∨ (l = none ∧ d = c) := by
  simp only [scalar?, gives_get] at given
  split at given
  next => exact .inr (gives_pure.mp given)
  next t ts rest =>
    obtain ⟨kind, value, span⟩ := Cursor.next_eq rest
    rw [kind, value, span] at given
    split at given
    next next =>
      rw [gives_advance] at given
      split at given
      next i value =>
        obtain ⟨rfl, rfl⟩ := gives_pure.mp given
        exact .inl ⟨_, rfl, .integer next value⟩
      next => exact absurd given gives_failAt
    next next =>
      rw [gives_advance] at given
      split at given
      next x value =>
        obtain ⟨rfl, rfl⟩ := gives_pure.mp given
        exact .inl ⟨_, rfl, .real next value⟩
      next => exact absurd given gives_failAt
    next next =>
      simp only [gives_advance, gives_pure] at given
      obtain ⟨rfl, rfl⟩ := given
      exact .inl ⟨_, rfl, .string next⟩
    next next =>
      simp only [gives_advance, gives_pure] at given
      obtain ⟨rfl, rfl⟩ := given
      exact .inl ⟨_, rfl, .trueWord next⟩
    next next =>
      simp only [gives_advance, gives_pure] at given
      obtain ⟨rfl, rfl⟩ := given
      exact .inl ⟨_, rfl, .falseWord next⟩
    next next =>
      simp only [gives_advance, gives_pure] at given
      obtain ⟨rfl, rfl⟩ := given
      exact .inl ⟨_, rfl, .emptyWord next⟩
    next => exact .inr (gives_pure.mp given)

theorem parses_selector {t : Tail} (dot : c.kindAt 0 = .mark .dot)
    (given : Gives (selector c.nextSpan) c.skip t d) : Parses (.tail t) c d := by
  simp only [selector, gives_get] at given
  split at given
  next u ts rest =>
    obtain ⟨kind, value, -⟩ := Cursor.next_eq rest
    rw [kind, value] at given
    split at given
    next next =>
      rw [gives_advance] at given
      split at given
      next i value =>
        simp only [gives_spanFrom, gives_pure] at given
        obtain ⟨rfl, rfl⟩ := given
        exact .index dot next value
      next => exact absurd given gives_failAt
    next next =>
      simp only [gives_spanFrom, gives_advance, gives_pure] at given
      obtain ⟨rfl, rfl⟩ := given
      exact .field dot next
    next => exact absurd given gives_unexpected
  next => exact absurd given gives_unexpected

theorem parses_expression (understood : Understood (n + 1)) {e : Expr}
    (given : Gives (expression (n + 1)) c e d) : Parses (.expression e) c d := by
  rw [expression] at given
  simp [-bind_pure_comp] at given
  obtain ⟨x, m, first, more, rest, rfl⟩ := given
  exact .expression (understood.phrase (.operand x) first) (understood.phrase (.operators more) rest)

theorem parses_operators (understood : Understood (n + 1)) {more : List (BinaryOp × Operand)}
    (given : Gives (moreOperands (n + 1)) c more d) : Parses (.operators more) c d := by
  rw [moreOperands, gives_peek] at given
  split at given
  next op next =>
    simp [-bind_pure_comp] at given
    obtain ⟨x, m, right, more, rest, rfl⟩ := given
    exact .operator next (understood.phrase (.operand x) right)
      (understood.phrase (.operators more) rest)
  next next =>
    obtain ⟨rfl, rfl⟩ := gives_pure.mp given
    exact .noOperator next

theorem parses_expressions (understood : Understood (n + 1)) {es : List Expr}
    (given : Gives (expressionList (n + 1)) c es d) : Parses (.expressions es) c d := by
  rw [expressionList] at given
  simp [-bind_pure_comp] at given
  obtain ⟨e, m, first, given⟩ := given
  split at given
  next next =>
    obtain ⟨es, rest, rfl⟩ := given
    exact .anotherExpression (understood.phrase (.expression e) first) next
      (understood.phrase (.expressions es) rest)
  next next =>
    obtain ⟨rfl, rfl⟩ := given
    exact .lastExpression (understood.phrase (.expression e) first) next

theorem parses_operand (understood : Understood (n + 1)) {x : Operand}
    (given : Gives (operand (n + 1)) c x d) : Parses (.operand x) c d := by
  rw [operand] at given
  simp [-bind_pure_comp] at given
  obtain ⟨op, a, sign, p, b, inner, t, test, rfl⟩ := given
  exact .operand (parses_sign sign) (understood.phrase (.primary p) inner) (parses_test test)

theorem parses_reference (understood : Understood (n + 1)) {p : Primary}
    (given : Gives (variablePrimary (n + 1)) c p d) :
    ∃ span name ts, p = .ref span name ts ∧ Parses (.primary (.ref span name ts)) c d := by
  rw [variablePrimary] at given
  simp [-bind_pure_comp] at given
  obtain ⟨next, ts, tails, rfl⟩ := given
  exact ⟨_, _, _, rfl, .reference next (understood.phrase (.tails ts) tails)⟩

theorem parses_primary (understood : Understood (n + 1)) {p : Primary}
    (given : Gives (primary (n + 1)) c p d) : Parses (.primary p) c d := by
  rw [primary, gives_here, gives_peek] at given
  split at given
  next r next =>
    simp only [gives_advance, gives_pure] at given
    obtain ⟨rfl, rfl⟩ := given
    exact .read next
  next =>
    simp [-bind_pure_comp] at given
    split at given
    next name =>
      cases n with
      | zero => exact absurd given (by simp [variablePrimary])
      | succ n =>
        obtain ⟨_, _, _, rfl, parses⟩ := parses_reference understood.pred given
        exact parses
    next =>
    split at given
    next left =>
      obtain ⟨e, m, inner, right, rfl, rfl⟩ := given
      exact .paren left (understood.phrase (.expression e) inner) right
    next =>
      obtain ⟨l, value, rfl⟩ := given
      exact .constant (understood.phrase (.literal l) value)

theorem parses_tail (understood : Understood (n + 1)) {t : Option Tail}
    (given : Gives (tail? (n + 1)) c t d) :
    (∃ tail, t = some tail ∧ Parses (.tail tail) c d) ∨ t = none ∧ Parses (.tails []) c d := by
  rw [tail?] at given
  simp [-bind_pure_comp] at given
  split at given
  next dot =>
    obtain ⟨t, selected, rfl⟩ := given
    exact .inl ⟨t, rfl, parses_selector dot selected⟩
  next dot =>
  split at given
  next left =>
    obtain ⟨key, m, inner, right, rfl, rfl⟩ := given
    exact .inl ⟨_, rfl, .subscript left (understood.phrase (.expression key) inner) right⟩
  next bracket =>
  split at given
  next left =>
    split at given
    next =>
      obtain ⟨right, rfl, rfl⟩ := given
      exact .inl ⟨_, rfl, .emptyCall left right⟩
    next =>
      obtain ⟨es, m, arguments, right, rfl, rfl⟩ := given
      exact .inl ⟨_, rfl, .call left (understood.phrase (.expressions es) arguments) right⟩
  next paren =>
    obtain ⟨rfl, rfl⟩ := given
    exact .inr ⟨rfl, .noTail dot bracket paren⟩

theorem parses_tails (understood : Understood (n + 1)) {ts : List Tail}
    (given : Gives (tails (n + 1)) c ts d) : Parses (.tails ts) c d := by
  rw [tails] at given
  obtain ⟨t, m, first, given⟩ := gives_bind.mp given
  cases n with
  | zero => exact absurd first (by simp [tail?])
  | succ n =>
    obtain ⟨tail, rfl, parses⟩ | ⟨rfl, none⟩ := parses_tail understood.pred first
    · simp [-bind_pure_comp] at given
      obtain ⟨ts, rest, rfl⟩ := given
      exact .anotherTail parses (understood.phrase (.tails ts) rest)
    · obtain ⟨rfl, rfl⟩ := gives_pure.mp given
      exact none

theorem parses_names (understood : Understood (n + 1)) {xs : List Text}
    (given : Gives (parameterNames (n + 1)) c xs d) : Parses (.names xs) c d := by
  rw [parameterNames] at given
  simp [-bind_pure_comp] at given
  split at given
  next next =>
    obtain ⟨rfl, rfl⟩ := given
    exact .noName next
  next =>
    obtain ⟨name, given⟩ := given
    split at given
    next next =>
      obtain ⟨xs, rest, rfl⟩ := given
      exact .anotherName name next (understood.phrase (.names xs) rest)
    next next =>
      obtain ⟨rfl, rfl⟩ := given
      exact .lastName name next

theorem parses_parameters
    (inner : ∀ {xs c d}, Gives (parameterNames n) c xs d → Parses (.names xs) c d) {xs : List Text}
    (given : Gives (parameters n) c xs d) : Parses (.parameters xs) c d := by
  rw [parameters, gives_accept] at given
  split at given
  next left =>
    rw [if_pos rfl] at given
    obtain ⟨xs, m, names, given⟩ := gives_bind.mp given
    obtain ⟨right, given⟩ := gives_expectMark.mp given
    obtain ⟨rfl, rfl⟩ := gives_pure.mp given
    exact .parameters left (inner names) right
  next next =>
    rw [if_neg nofun] at given
    obtain ⟨rfl, rfl⟩ := gives_pure.mp given
    exact .noParameters next

theorem parses_elements (understood : Understood (n + 1)) {es : List Element}
    (given : Gives (tupleElements (n + 1)) c es d) : Parses (.elements es) c d := by
  rw [tupleElements] at given
  simp [-bind_pure_comp] at given
  split at given
  next next =>
    obtain ⟨rfl, rfl⟩ := given
    exact .noElement next
  next =>
    obtain ⟨name, a, label, e, m, value, given⟩ := given
    split at given
    next next =>
      obtain ⟨es, rest, rfl⟩ := given
      exact .anotherElement (parses_label label) (understood.phrase (.expression e) value) next
        (understood.phrase (.elements es) rest)
    next next =>
      obtain ⟨rfl, rfl⟩ := given
      exact .lastElement (parses_label label) (understood.phrase (.expression e) value) next

theorem parses_function (understood : Understood (n + 1)) {l : Literal}
    (word : c.kindAt 0 = .keyword .funcWord)
    (given : Gives (functionLiteral (n + 1) c.nextSpan) c.skip l d) : Parses (.literal l) c d := by
  rw [functionLiteral] at given
  simp [-bind_pure_comp] at given
  obtain ⟨xs, a, params, given⟩ := given
  replace params := parses_parameters (understood.phrase (.names _)) params
  split at given
  next opening =>
    obtain ⟨b, m, inner, closing, rfl, rfl⟩ := given
    exact .function word params opening
      (understood n n.lt_succ_self _ (by simp [closers]) (.body b) _ _ inner) closing
  next =>
    obtain ⟨arrow, e, result, rfl⟩ := given
    exact .lambda word params arrow (understood.phrase (.expression e) result)

theorem parses_literal (understood : Understood (n + 1)) {l : Literal}
    (given : Gives (literal (n + 1)) c l d) : Parses (.literal l) c d := by
  rw [literal, gives_here] at given
  obtain ⟨constant, m, scalar, given⟩ := gives_bind.mp given
  obtain ⟨value, rfl, parses⟩ | ⟨rfl, rfl⟩ := parses_scalar scalar
  · obtain ⟨rfl, rfl⟩ := gives_pure.mp given
    exact parses
  simp [-bind_pure_comp] at given
  split at given
  next left =>
    split at given
    next =>
      obtain ⟨right, rfl, rfl⟩ := given
      exact .emptyArray left right
    next =>
      obtain ⟨es, m, elements, right, rfl, rfl⟩ := given
      exact .array left (understood.phrase (.expressions es) elements) right
  next =>
  split at given
  next left =>
    obtain ⟨es, m, elements, right, rfl, rfl⟩ := given
    exact .tuple left (understood.phrase (.elements es) elements) right
  next =>
    obtain ⟨word, given⟩ := given
    cases n with
    | zero => exact absurd given (by simp [functionLiteral])
    | succ n => exact parses_function understood.pred word given

variable {closing : List Token.Kind}

theorem Understood.inner (understood : Understood (n + 1)) (within : closing ⊆ closers) {b : Body}
    (given : Gives (body n closing) c b d) : Parses (.body b) c d :=
  understood n n.lt_succ_self closing within (.body b) c d given

theorem parses_statements (understood : Understood (n + 1)) (within : closing ⊆ closers)
    {ss : List Statement} (given : Gives (statements (n + 1) closing) c ss d) :
    Parses (.statements ss) c d := by
  have rest {ss : List Statement} {m : Cursor} (given : Gives (statements n closing) m ss d) :
      Parses (.statements ss) m d :=
    understood n n.lt_succ_self closing within (.statements ss) m d given
  rw [statements] at given
  simp [-bind_pure_comp] at given
  split at given
  next next => exact .semicolon next (rest given)
  next =>
  split at given
  next next =>
    obtain ⟨rfl, rfl⟩ := given
    exact .noStatement (within next)
  next =>
    obtain ⟨-, s, m, first, ss, others, rfl⟩ := given
    exact .anotherStatement (understood.phrase (.statement s) first) (rest others)

theorem parses_body (understood : Understood (n + 1)) (within : closing ⊆ closers) {b : Body}
    (given : Gives (body (n + 1) closing) c b d) : Parses (.body b) c d := by
  rw [body] at given
  simp [-bind_pure_comp] at given
  obtain ⟨ss, m, inner, given⟩ := given
  have parses := Parses.body (understood n n.lt_succ_self closing within (.statements ss) c m inner)
  split at given
  next none =>
    obtain ⟨rfl, rfl⟩ := given
    simpa [none] using parses
  next some =>
    obtain ⟨rfl, rfl⟩ := given
    simpa [some, Cursor.spanTo] using parses

theorem parses_declarations (understood : Understood (n + 1)) {ss : List Statement}
    (given : Gives (declarations (n + 1)) c ss d) : Parses (.declarations ss) c d := by
  rw [declarations] at given
  simp [-bind_pure_comp, Cursor.kindAt_one] at given
  obtain ⟨name, given⟩ := given
  have rest {ss : List Statement} {m : Cursor} (given : Gives (declarations n) m ss d) :
      Parses (.declarations ss) m d := understood.phrase (.declarations ss) given
  split at given
  next assign =>
    obtain ⟨e, m, value, given⟩ := given
    have initial := Parses.initial assign (understood.phrase (.expression e) value)
    split at given
    next next =>
      obtain ⟨ss, others, rfl⟩ := given
      exact .anotherDeclaration name initial next.1 (rest others)
    next next =>
      obtain ⟨rfl, rfl⟩ := given
      exact .lastDeclaration name initial next
  next assign =>
    split at given
    next next =>
      obtain ⟨ss, others, rfl⟩ := given
      exact .anotherDeclaration name (.noInitial assign) next.1 (rest others)
    next next =>
      obtain ⟨rfl, rfl⟩ := given
      exact .lastDeclaration name (.noInitial assign) next

theorem parses_initial
    (inner : ∀ {e c d}, Gives (expression n) c e d → Parses (.expression e) c d) {e : Expr}
    (given : (Phrase.initial e).Given n closing c d) : Parses (.initial e) c d := by
  rw [Phrase.Given, gives_accept] at given
  split at given
  next assign => exact .initial assign (inner given)
  next assign =>
    obtain ⟨rfl, rfl⟩ := gives_pure.mp given
    exact .noInitial assign

theorem parses_assignment (understood : Understood (n + 1)) {s : Statement}
    (given : Gives (assignment (n + 1)) c s d) : Parses (.statement [s]) c d := by
  rw [assignment, gives_here] at given
  obtain ⟨p, m, target, given⟩ := gives_bind.mp given
  cases n with
  | zero => exact absurd target (by simp [variablePrimary])
  | succ n =>
    obtain ⟨span, name, ts, rfl, parses⟩ := parses_reference understood.pred target
    rw [gives_peek] at given
    split at given
    next op next =>
      simp [-bind_pure_comp] at given
      obtain ⟨e, value, rfl⟩ := given
      exact .assign parses next (understood.phrase (.expression e) value)
    next next =>
      simp [-bind_pure_comp] at given
      obtain ⟨last, rfl, rfl⟩ := given
      exact .effect parses next last

theorem parses_branch (understood : Understood (n + 1)) {s : Statement}
    (word : c.kindAt 0 = .keyword .ifWord)
    (given : Gives (branch (n + 1) c.nextSpan) c.skip s d) : Parses (.statement [s]) c d := by
  rw [branch] at given
  simp [-bind_pure_comp] at given
  obtain ⟨e, a, condition, opening, yes, b, inner, given⟩ := given
  replace condition := understood.phrase (.expression e) condition
  replace inner := understood.inner (by simp [closers]) inner
  split at given
  next otherwise =>
    obtain ⟨no, m, other, closing, rfl, rfl⟩ := given
    exact .branches word condition opening inner otherwise
      (understood.inner (by simp [closers]) other) closing
  next =>
    obtain ⟨closing, rfl, rfl⟩ := given
    exact .branch word condition opening inner closing

theorem parses_forLoop (understood : Understood (n + 1)) {s : Statement}
    (word : c.kindAt 0 = .keyword .forWord)
    (given : Gives (forLoop (n + 1) c.nextSpan) c.skip s d) : Parses (.statement [s]) c d := by
  rw [forLoop] at given
  simp [-bind_pure_comp] at given
  obtain ⟨counter, range, low, l, first, dots, high, h, last, opening, b, m, inner, closing, rfl, rfl⟩ :=
    given
  exact .forLoop word counter range (understood.phrase (.expression low) first) dots
    (understood.phrase (.expression high) last) opening
    (understood.inner (by simp [closers]) inner) closing

theorem parses_whileLoop (understood : Understood (n + 1)) {s : Statement}
    (word : c.kindAt 0 = .keyword .whileWord)
    (given : Gives (whileLoop (n + 1) c.nextSpan) c.skip s d) : Parses (.statement [s]) c d := by
  rw [whileLoop] at given
  simp [-bind_pure_comp] at given
  obtain ⟨e, a, condition, opening, b, m, inner, closing, rfl, rfl⟩ := given
  exact .whileLoop word (understood.phrase (.expression e) condition) opening
    (understood.inner (by simp [closers]) inner) closing

theorem parses_statement (understood : Understood (n + 1)) {ss : List Statement}
    (given : Gives (statement (n + 1)) c ss d) : Parses (.statement ss) c d := by
  rw [statement, gives_here, gives_peek] at given
  split at given
  next word =>
    rw [gives_advance] at given
    exact .declare word (understood.phrase (.declarations ss) given)
  next word =>
    simp [-bind_pure_comp] at given
    obtain ⟨s, given, rfl⟩ := given
    cases n with
    | zero => exact absurd given (by simp [branch])
    | succ n => exact parses_branch understood.pred word given
  next word =>
    simp [-bind_pure_comp] at given
    obtain ⟨s, given, rfl⟩ := given
    cases n with
    | zero => exact absurd given (by simp [forLoop])
    | succ n => exact parses_forLoop understood.pred word given
  next word =>
    simp [-bind_pure_comp] at given
    obtain ⟨s, given, rfl⟩ := given
    cases n with
    | zero => exact absurd given (by simp [whileLoop])
    | succ n => exact parses_whileLoop understood.pred word given
  next word =>
    simp [-bind_pure_comp] at given
    obtain ⟨es, arguments, rfl⟩ := given
    exact .print word (understood.phrase (.expressions es) arguments)
  next word =>
    simp [-bind_pure_comp] at given
    split at given
    next starts =>
      obtain ⟨e, value, rfl⟩ := given
      exact .retValue word (understood.phrase (.expression e) value)
    next next =>
      obtain ⟨rfl, rfl⟩ := given
      exact .ret word (by simpa using next)
  next word =>
    simp only [gives_advance, gives_pure] at given
    obtain ⟨rfl, rfl⟩ := given
    exact .brk word
  next word =>
    simp only [gives_advance, gives_pure] at given
    obtain ⟨rfl, rfl⟩ := given
    exact .cont word
  next =>
    simp [-bind_pure_comp] at given
    obtain ⟨s, given, rfl⟩ := given
    cases n with
    | zero => exact absurd given (by simp [assignment])
    | succ n => exact parses_assignment understood.pred given
  next => exact absurd given gives_unexpected

end Understood

/-- What the parser reads the rules allow. -/
theorem understood (n : Nat) : Understood n := by
  induction n with
  | zero => nofun
  | succ m ih =>
    intro k below closing within ph c d given
    obtain below | rfl := Nat.lt_succ_iff_lt_or_eq.mp below
    · exact ih k below closing within ph c d given
    cases k with
    | zero =>
      cases ph with
      | sign => exact parses_sign given
      | test => exact parses_test given
      | label => exact parses_label given
      | parameters => exact parses_parameters (fun names => absurd names (by simp [parameterNames])) given
      | initial => exact parses_initial (fun value => absurd value (by simp [expression])) given
      | _ =>
        simp [Phrase.Given, expression, moreOperands, expressionList, operand, primary, tails, tail?,
          literal, tupleElements, parameterNames, statements, body, statement, declarations] at given
    | succ n =>
      cases ph with
      | expression => exact parses_expression ih given
      | operators => exact parses_operators ih given
      | expressions => exact parses_expressions ih given
      | operand => exact parses_operand ih given
      | sign => exact parses_sign given
      | test => exact parses_test given
      | primary => exact parses_primary ih given
      | tails => exact parses_tails ih given
      | tail t =>
        obtain ⟨tail, same, parses⟩ | ⟨none, -⟩ := parses_tail ih given
        · cases same
          exact parses
        · cases none
      | literal => exact parses_literal ih given
      | label => exact parses_label given
      | elements => exact parses_elements ih given
      | names => exact parses_names ih given
      | parameters => exact parses_parameters (parses_names ih) given
      | statements => exact parses_statements ih within given
      | body => exact parses_body ih within given
      | statement => exact parses_statement ih given
      | initial => exact parses_initial (parses_expression ih) given
      | declarations => exact parses_declarations ih given

end CellScript.Parser
