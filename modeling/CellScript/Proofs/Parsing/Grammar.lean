import Mathlib.Data.List.Chain
import CellScript.Proofs.Parsing.Progress

/-! The grammar of the language as derivations of lists of symbols. Two freedoms can be granted beyond it:
a comma after the last tuple element or parameter, and semicolons before the first statement. -/
namespace CellScript

/-- A token as the grammar sees it: words and marks without their text, and no places. -/
inductive Symbol where
  | word (k : Keyword)
  | mark (m : Mark)
  | name (text : Text)
  | integer (text : Text)
  | real (text : Text)
  | string (text : Text)
  | stop
deriving DecidableEq, Repr

namespace Symbol

def kind : Symbol → Token.Kind
  | word k => .keyword k
  | mark m => .mark m
  | name _ => .name
  | integer _ => .integer
  | real _ => .real
  | string _ => .string
  | stop => .endOfInput

/-- The text that the symbol keeps; words and marks keep none. -/
def text : Symbol → Text
  | name text | integer text | real text | string text => text
  | word _ | mark _ | stop => []

end Symbol

/-- The symbol for a token of the kind with the text. -/
def Token.Kind.symbol (value : Text) : Token.Kind → Symbol
  | keyword k => .word k
  | mark m => .mark m
  | name => .name value
  | integer => .integer value
  | real => .real value
  | string => .string value
  | endOfInput => .stop

def Token.symbol (t : Token) : Symbol := t.kind.symbol t.value

/-- The symbols up to the end of input. -/
def Lexer.Tokens.symbols (ts : Lexer.Tokens) : List Symbol :=
  (ts.tokens.map Token.symbol).takeWhile (· ≠ .stop)

/-- The symbols still to be read, up to the end of input. -/
def Parser.Cursor.symbols (c : Parser.Cursor) : List Symbol :=
  (c.rest.map Token.symbol).takeWhile (· ≠ .stop)

def BinaryOp.symbol : BinaryOp → Symbol
  | multiply => .mark .star
  | divide => .mark .slash
  | add => .mark .plus
  | subtract => .mark .minus
  | less => .mark .less
  | lessEqual => .mark .lessEqual
  | greater => .mark .greater
  | greaterEqual => .mark .greaterEqual
  | equal => .mark .equal
  | notEqual => .mark .notEqual
  | and => .word .andWord
  | or => .word .orWord
  | xor => .word .xorWord

def UnaryOp.symbol : UnaryOp → Symbol
  | plus => .mark .plus
  | minus => .mark .minus
  | not => .word .notWord

def TypeName.symbols : TypeName → List Symbol
  | int => [.word .intWord]
  | real => [.word .realWord]
  | bool => [.word .boolWord]
  | string => [.word .stringWord]
  | empty => [.word .emptyWord]
  | array => [.mark .leftBracket, .mark .rightBracket]
  | tuple => [.mark .leftBrace, .mark .rightBrace]
  | func => [.word .funcWord]

def ReadKind.symbol : ReadKind → Symbol
  | int => .word .readIntWord
  | real => .word .readRealWord
  | string => .word .readStringWord

def AssignOp.symbol : AssignOp → Symbol
  | set => .mark .assign
  | add => .mark .plusAssign
  | subtract => .mark .minusAssign

namespace Parser

/-- Freedoms beyond the grammar. -/
structure Leeway where
  /-- A comma may follow the last tuple element and the last parameter. -/
  lastComma : Bool
  /-- Semicolons may stand before the first statement. -/
  firstSemicolon : Bool
deriving DecidableEq, Repr

/-- The language's own grammar. -/
def Leeway.none : Leeway := ⟨false, false⟩

/-- The phrase has a derivation with the symbols. Places in its tree are arbitrary. -/
inductive Derives (free : Leeway) : Phrase → List Symbol → Prop where
  | expression {span : Span} {x : Operand} {more : List (BinaryOp × Operand)} {u v : List Symbol}
      (first : Derives free (.operand x) u) (rest : Derives free (.operators more) v) :
    Derives free (.expression (.mk span (x :: more.map (·.2)) (more.map fun (op, _) => .known op)))
      (u ++ v)
  | noOperator : Derives free (.operators []) []
  | operator {op : BinaryOp} {x : Operand} {more : List (BinaryOp × Operand)} {u v : List Symbol}
      (right : Derives free (.operand x) u) (rest : Derives free (.operators more) v) :
    Derives free (.operators ((op, x) :: more)) (op.symbol :: u ++ v)
  | lastExpression {e : Expr} {u : List Symbol} (last : Derives free (.expression e) u) :
    Derives free (.expressions [e]) u
  | anotherExpression {e : Expr} {es : List Expr} {u v : List Symbol}
      (first : Derives free (.expression e) u) (rest : Derives free (.expressions es) v) :
    Derives free (.expressions (e :: es)) (u ++ .mark .comma :: v)
  | operand {span : Span} {op : Option (Word UnaryOp)} {p : Primary} {t : Option (Word TypeName)}
      {u v w : List Symbol} (sign : Derives free (.sign op) u) (inner : Derives free (.primary p) v)
      (test : Derives free (.test t) w) :
    Derives free (.operand (.mk span op p t)) (u ++ v ++ w)
  | noSign : Derives free (.sign none) []
  | sign {op : UnaryOp} : Derives free (.sign (some (.known op))) [op.symbol]
  | noTest : Derives free (.test none) []
  | test {t : TypeName} : Derives free (.test (some (.known t))) (.word .isWord :: t.symbols)
  | read {span : Span} {r : ReadKind} : Derives free (.primary (.read span (.known r))) [r.symbol]
  | reference {span : Span} {name : Text} {ts : List Tail} {u : List Symbol}
      (tails : Derives free (.tails ts) u) :
    Derives free (.primary (.ref span name ts)) (.name name :: u)
  | paren {span : Span} {e : Expr} {u : List Symbol} (inner : Derives free (.expression e) u) :
    Derives free (.primary (.paren span e)) (.mark .leftParen :: u ++ [.mark .rightParen])
  | constant {span : Span} {l : Literal} {u : List Symbol} (value : Derives free (.literal l) u) :
    Derives free (.primary (.literal span l)) u
  | noTail : Derives free (.tails []) []
  | anotherTail {t : Tail} {ts : List Tail} {u v : List Symbol} (first : Derives free (.tail t) u)
      (rest : Derives free (.tails ts) v) :
    Derives free (.tails (t :: ts)) (u ++ v)
  | index {span : Span} {i : Int64} {digits : Text} (value : integerValue? digits = some i) :
    Derives free (.tail (.index span i)) [.mark .dot, .integer digits]
  | field {span : Span} {name : Text} : Derives free (.tail (.field span name)) [.mark .dot, .name name]
  | subscript {span : Span} {e : Expr} {u : List Symbol} (key : Derives free (.expression e) u) :
    Derives free (.tail (.subscript span e)) (.mark .leftBracket :: u ++ [.mark .rightBracket])
  | emptyCall {span : Span} :
    Derives free (.tail (.call span [])) [.mark .leftParen, .mark .rightParen]
  | call {span : Span} {es : List Expr} {u : List Symbol} (arguments : Derives free (.expressions es) u) :
    Derives free (.tail (.call span es)) (.mark .leftParen :: u ++ [.mark .rightParen])
  | integer {span : Span} {i : Int64} {digits : Text} (value : integerValue? digits = some i) :
    Derives free (.literal (.integer span i)) [.integer digits]
  | real {span : Span} {x : Float} {digits : Text} (value : Real.read? digits = some x) :
    Derives free (.literal (.real span x)) [.real digits]
  | string {span : Span} {text : Text} : Derives free (.literal (.string span text)) [.string text]
  | trueWord {span : Span} : Derives free (.literal (.boolean span true)) [.word .trueWord]
  | falseWord {span : Span} : Derives free (.literal (.boolean span false)) [.word .falseWord]
  | emptyWord {span : Span} : Derives free (.literal (.empty span)) [.word .emptyWord]
  | emptyArray {span : Span} :
    Derives free (.literal (.array span [])) [.mark .leftBracket, .mark .rightBracket]
  | array {span : Span} {es : List Expr} {u : List Symbol} (elements : Derives free (.expressions es) u) :
    Derives free (.literal (.array span es)) (.mark .leftBracket :: u ++ [.mark .rightBracket])
  | tuple {span : Span} {es : List Element} {u : List Symbol}
      (elements : Derives free (.elements es) u) :
    Derives free (.literal (.tuple span es)) (.mark .leftBrace :: u ++ [.mark .rightBrace])
  | function {span : Span} {xs : List Text} {b : Body} {u v : List Symbol}
      (params : Derives free (.parameters xs) u) (inner : Derives free (.body b) v) :
    Derives free (.literal (.function span xs b))
      (.word .funcWord :: u ++ .word .isWord :: v ++ [.word .endWord])
  | lambda {span : Span} {xs : List Text} {e : Expr} {u v : List Symbol}
      (params : Derives free (.parameters xs) u) (result : Derives free (.expression e) v) :
    Derives free (.literal (.lambda span xs e)) (.word .funcWord :: u ++ .mark .arrow :: v)
  | noLabel : Derives free (.label []) []
  | label {name : Text} : Derives free (.label name) [.name name, .mark .assign]
  | noElement : Derives free (.elements []) []
  | lastElement {span : Span} {name : Text} {e : Expr} {u v : List Symbol}
      (label : Derives free (.label name) u) (value : Derives free (.expression e) v) :
    Derives free (.elements [.mk span name e]) (u ++ v)
  | commaElement {span : Span} {name : Text} {e : Expr} {u v : List Symbol} (allowed : free.lastComma)
      (label : Derives free (.label name) u) (value : Derives free (.expression e) v) :
    Derives free (.elements [.mk span name e]) (u ++ v ++ [.mark .comma])
  | anotherElement {span : Span} {name : Text} {e : Expr} {es : List Element} {u v w : List Symbol}
      (label : Derives free (.label name) u) (value : Derives free (.expression e) v)
      (rest : Derives free (.elements es) w) (more : es ≠ []) :
    Derives free (.elements (.mk span name e :: es)) (u ++ v ++ .mark .comma :: w)
  | noName : Derives free (.names []) []
  | lastName {name : Text} : Derives free (.names [name]) [.name name]
  | commaName {name : Text} (allowed : free.lastComma) :
    Derives free (.names [name]) [.name name, .mark .comma]
  | anotherName {name : Text} {xs : List Text} {u : List Symbol} (rest : Derives free (.names xs) u)
      (more : xs ≠ []) :
    Derives free (.names (name :: xs)) (.name name :: .mark .comma :: u)
  | noParameters : Derives free (.parameters []) []
  | parameters {xs : List Text} {u : List Symbol} (names : Derives free (.names xs) u) :
    Derives free (.parameters xs) (.mark .leftParen :: u ++ [.mark .rightParen])
  | noStatement : Derives free (.statements []) []
  | semicolon {ss : List Statement} {u : List Symbol} (allowed : free.firstSemicolon)
      (rest : Derives free (.statements ss) u) :
    Derives free (.statements ss) (.mark .semicolon :: u)
  | anotherStatement {s ss : List Statement} {u v : List Symbol} (count : Nat)
      (first : Derives free (.statement s) u) (rest : Derives free (.statements ss) v) :
    Derives free (.statements (s ++ ss)) (u ++ .replicate count (.mark .semicolon) ++ v)
  | body {span : Span} {ss : List Statement} {u : List Symbol} (inner : Derives free (.statements ss) u) :
    Derives free (.body (.mk span ss false)) u
  | declare {ss : List Statement} {u : List Symbol} (inner : Derives free (.declarations ss) u) :
    Derives free (.statement ss) (.word .varWord :: u)
  | branch {span : Span} {e : Expr} {yes : Body} {u v : List Symbol}
      (condition : Derives free (.expression e) u) (inner : Derives free (.body yes) v) :
    Derives free (.statement [.branch span e yes .missing])
      (.word .ifWord :: u ++ .word .thenWord :: v ++ [.word .endWord])
  | branches {span : Span} {e : Expr} {yes no : Body} {u v w : List Symbol}
      (condition : Derives free (.expression e) u) (inner : Derives free (.body yes) v)
      (other : Derives free (.body no) w) :
    Derives free (.statement [.branch span e yes no])
      (.word .ifWord :: u ++ .word .thenWord :: v ++ .word .elseWord :: w ++ [.word .endWord])
  | forLoop {span : Span} {counter : Text} {low high : Expr} {inner : Body} {u v w : List Symbol}
      (first : Derives free (.expression low) u) (last : Derives free (.expression high) v)
      (repeated : Derives free (.body inner) w) :
    Derives free (.statement [.forLoop span counter low high inner])
      (.word .forWord :: .name counter :: .word .inWord :: u ++ .mark .dotDot :: v ++
        .word .loopWord :: w ++ [.word .endWord])
  | whileLoop {span : Span} {e : Expr} {inner : Body} {u v : List Symbol}
      (condition : Derives free (.expression e) u) (repeated : Derives free (.body inner) v) :
    Derives free (.statement [.whileLoop span e inner])
      (.word .whileWord :: u ++ .word .loopWord :: v ++ [.word .endWord])
  | print {span : Span} {es : List Expr} {u : List Symbol} (arguments : Derives free (.expressions es) u) :
    Derives free (.statement [.print span es]) (.word .printWord :: u)
  | ret {span : Span} : Derives free (.statement [.ret span .missing]) [.word .returnWord]
  | retValue {span : Span} {e : Expr} {u : List Symbol} (value : Derives free (.expression e) u) :
    Derives free (.statement [.ret span e]) (.word .returnWord :: u)
  | brk {span : Span} : Derives free (.statement [.brk span]) [.word .breakWord]
  | cont {span : Span} : Derives free (.statement [.cont span]) [.word .continueWord]
  | assign {span : Span} {p : Primary} {op : AssignOp} {e : Expr} {u v : List Symbol}
      (target : Derives free (.primary p) u) (value : Derives free (.expression e) v) :
    Derives free (.statement [.assign span p (some (.known op)) e]) (u ++ op.symbol :: v)
  | effect {span : Span} {p : Primary} {u : List Symbol} (target : Derives free (.primary p) u) :
    Derives free (.statement [.assign span p none .missing]) u
  | noInitial : Derives free (.initial .missing) []
  | initial {e : Expr} {u : List Symbol} (value : Derives free (.expression e) u) :
    Derives free (.initial e) (.mark .assign :: u)
  | lastDeclaration {span : Span} {name : Text} {e : Expr} {u : List Symbol}
      (initial : Derives free (.initial e) u) :
    Derives free (.declarations [.declare span name e]) (.name name :: u)
  | anotherDeclaration {span : Span} {name : Text} {e : Expr} {ss : List Statement} {u v : List Symbol}
      (initial : Derives free (.initial e) u) (rest : Derives free (.declarations ss) v) :
    Derives free (.declarations (.declare span name e :: ss)) (.name name :: u ++ .mark .comma :: v)

/-- What a body opens with. -/
def openings : List Symbol := [.word .isWord, .word .thenWord, .word .elseWord, .word .loopWord]

/-- What closes tuple elements and parameters. -/
def closings : List Symbol := [.mark .rightBrace, .mark .rightParen]

/-- Neither of the freedoms is taken, unless granted, between two neighbours. -/
def Leeway.Neighbours (free : Leeway) (a b : Symbol) : Prop :=
  (free.lastComma ∨ ¬ (a = .mark .comma ∧ b ∈ closings)) ∧
    (free.firstSemicolon ∨ ¬ (a ∈ openings ∧ b = .mark .semicolon))

/-- Neither of the freedoms is taken, unless granted. -/
def Leeway.Tidy (free : Leeway) (u : List Symbol) : Prop :=
  u.IsChain free.Neighbours ∧ (free.firstSemicolon ∨ u.head? ≠ some (.mark .semicolon))

theorem Cursor.symbols_step {c : Cursor} {kind : Token.Kind} (next : c.kindAt 0 = kind)
    (token : kind ≠ .endOfInput) :
    c.symbols = kind.symbol c.value :: c.skip.symbols := by
  obtain ⟨t, rest, rfl, value⟩ := c.rest_eq_of_kind next token
  have going : t.symbol ≠ .stop := by
    unfold Token.symbol Token.Kind.symbol
    split <;> simp_all
  unfold symbols
  rw [rest, List.map_cons, List.takeWhile_cons_of_pos (by simpa using going), ← value]
  rfl

theorem Cursor.symbols_of_stop {c : Cursor} (next : c.kindAt 0 = .endOfInput) : c.symbols = [] := by
  unfold kindAt at next
  unfold symbols
  cases rest : c.rest with
  | nil => rfl
  | cons t ts =>
    have stop : t.kind = .endOfInput := by simpa [rest] using next
    simp [Token.symbol, Token.Kind.symbol, stop]

section Symbols

variable {kind : Token.Kind} {value : Text}

theorem symbol_of_binaryOp {op : BinaryOp} (next : binaryOp? kind = some op) :
    kind.symbol value = op.symbol := by
  unfold binaryOp? at next
  split at next <;> cases next <;> rfl

theorem symbol_of_unaryOp {op : UnaryOp} (next : unaryOp? kind = some op) :
    kind.symbol value = op.symbol := by
  unfold unaryOp? at next
  split at next <;> cases next <;> rfl

theorem symbols_of_typeWord {t : TypeName} (next : typeWord? kind = some t) :
    [kind.symbol value] = t.symbols := by
  unfold typeWord? at next
  split at next <;> cases next <;> rfl

theorem symbol_of_readKind {r : ReadKind} (next : readKind? kind = some r) :
    kind.symbol value = r.symbol := by
  unfold readKind? at next
  split at next <;> cases next <;> rfl

theorem symbol_of_assignOp {op : AssignOp} (next : assignOp? kind = some op) :
    kind.symbol value = op.symbol := by
  unfold assignOp? at next
  split at next <;> cases next <;> rfl

end Symbols

theorem Cursor.symbols_step_of {α : Type} {c : Cursor} {meaning : Token.Kind → Option α} {a : α}
    (next : meaning (c.kindAt 0) = some a) (none : meaning .endOfInput = none) :
    c.symbols = (c.kindAt 0).symbol c.value :: c.skip.symbols := by
  refine Cursor.symbols_step rfl fun stop => ?_
  rw [stop, none] at next
  cases next

end Parser

end CellScript
