import CellScript.Proofs.Parsing.Completeness
import CellScript.Proofs.Parsing.Derivation
import CellScript.Proofs.Real.Finite

/-! The trees that the parser returns are those that a source can spell. Where an expression has been
read, no operator follows, and an `is` only after a type test; so a lambda, which takes what it can into
its result, is the last operand or has a test after one of its result. -/
namespace CellScript

def Symbol.isLexical : Symbol → Bool
  | name text => text.isName
  | real text => text.head?.any Text.isDigit
  | word _ | mark _ | integer _ | string _ | stop => true

namespace Parser

/-- The symbols still to be read have texts of their kinds. -/
def Cursor.Lexical (c : Cursor) : Prop := ∀ a ∈ c.symbols, a.isLexical

section Lexical

variable {c d : Cursor}

theorem Cursor.Lexical.after {ph : Phrase} (lexical : c.Lexical) (parses : Parses ph c d) :
    d.Lexical := by
  obtain ⟨used, read, -⟩ := derived_of_parses .none parses
  intro a held
  exact lexical a (by rw [read]; exact List.mem_append_right _ held)

theorem Cursor.Lexical.skip {kind : Token.Kind} (lexical : c.Lexical) (next : c.kindAt 0 = kind)
    (token : kind ≠ .endOfInput := by rintro ⟨⟩) : c.skip.Lexical := by
  intro a held
  exact lexical a (by rw [Cursor.symbols_step next token]; exact List.mem_cons_of_mem _ held)

theorem Cursor.Lexical.skip_of {α : Type} {meaning : Token.Kind → Option α} {a : α} (lexical : c.Lexical)
    (next : meaning (c.kindAt 0) = some a) (none : meaning .endOfInput = none := by rfl) :
    c.skip.Lexical := by
  intro b held
  exact lexical b (by rw [Cursor.symbols_step_of next none]; exact List.mem_cons_of_mem _ held)

theorem Cursor.Lexical.name (lexical : c.Lexical) (next : c.kindAt 0 = .name) : c.value.isName :=
  lexical (.name c.value) (by rw [Cursor.symbols_step next (by decide)]; exact List.mem_cons_self)

theorem Cursor.Lexical.real {x : Float} (lexical : c.Lexical) (next : c.kindAt 0 = .real)
    (value : Real.read? c.value = some x) : Real.isPlain x := by
  have shown : (Symbol.real c.value).isLexical :=
    lexical (.real c.value) (by rw [Cursor.symbols_step next (by decide)]; exact List.mem_cons_self)
  cases text : c.value with
  | nil => simp [Symbol.isLexical, text] at shown
  | cons b t =>
    simp [Symbol.isLexical, text] at shown
    rw [text] at value
    obtain ⟨m, finite⟩ := @Real.decode_read? false b t x shown value
    simp [Real.isPlain, finite]

end Lexical

/-- An expression has been read up to here; `tested` tells that its last operand has a type test. -/
structure Halts (tested : Bool) (d : Cursor) : Prop where
  operator : binaryOp? (d.kindAt 0) = none
  test : tested ∨ d.kindAt 0 ≠ .keyword .isWord

/-- What is read is expressible, and what then follows. -/
def Phrase.Expressed (d : Cursor) : Phrase → Prop
  | .expression e => Expressible.expr true e ∧ Halts e.endsTested d
  | .operators more =>
    Expressible.operands true (more.map (·.2)) ∧ Halts (more.isEmpty || lastTested (more.map (·.2))) d
  | .expressions es => es ≠ [] ∧ Expressible.exprs true es
  | .operand x => Expressible.operand true x ∧ x.placed true (binaryOp? (d.kindAt 0)).isNone ∧
    (x.isTested ∨ d.kindAt 0 ≠ .keyword .isWord)
  | .sign op => op.all Word.isKnown
  | .test t => t.all Word.isKnown ∧ (t.isSome ∨ d.kindAt 0 ≠ .keyword .isWord)
  | .primary p => Expressible.primary true p ∧ ∀ r ∈ p.result?, Halts r.endsTested d
  | .tails ts => Expressible.tails true ts
  | .tail t => Expressible.tail true t
  | .literal l => Expressible.literal true l ∧ ∀ r ∈ l.result?, Halts r.endsTested d
  | .label name => name.isEmpty || name.isName
  | .elements es => Expressible.elements true es
  | .names xs | .parameters xs => xs.all Text.isName
  | .statements ss | .statement ss | .declarations ss => Expressible.statements true ss
  | .body b => Expressible.body true b
  | .initial e => e.isMissing || Expressible.expr true e

section Expressed

variable {c m d : Cursor}

theorem operators_isEmpty {more : List (BinaryOp × Operand)} (rest : Parses (.operators more) m d) :
    (binaryOp? (m.kindAt 0)).isNone = more.isEmpty := by
  cases rest with
  | noOperator next => rw [next]; rfl
  | operator next => rw [next]; rfl

theorem expressed_operands {x : Operand} {more : List (BinaryOp × Operand)}
    (rest : Parses (.operators more) m d) (first : Phrase.Expressed m (.operand x))
    (others : Phrase.Expressed d (.operators more)) :
    Expressible.operands true (x :: more.map (·.2)) ∧ Halts (lastTested (x :: more.map (·.2))) d := by
  obtain ⟨inner, placed, test⟩ := first
  obtain ⟨expressible, halts⟩ := others
  rw [operators_isEmpty rest] at placed
  refine ⟨by simp [Expressible.operands, inner, placed, expressible], halts.operator, ?_⟩
  cases rest with
  | noOperator => exact test
  | operator => simpa [lastTested] using halts.test

theorem statements_append {ss ts : List Statement} :
    Expressible.statements true (ss ++ ts) =
      (Expressible.statements true ss && Expressible.statements true ts) := by
  induction ss with
  | nil => rfl
  | cons s ss ih =>
    rw [List.cons_append, Expressible.statements, ih, Expressible.statements, Bool.and_assoc]

theorem expressed_operand {span : Span} {op : Option (Word UnaryOp)} {p : Primary}
    {t : Option (Word TypeName)} (sign : Phrase.Expressed c (.sign op))
    (inner : Phrase.Expressed m (.primary p)) (parses : Parses (.test t) m d)
    (test : Phrase.Expressed d (.test t)) : Phrase.Expressed d (.operand (.mk span op p t)) := by
  obtain ⟨expressible, results⟩ := inner
  obtain ⟨wellKnown, follows⟩ := test
  refine ⟨?_, ?_, follows⟩
  · simp only [Phrase.Expressed] at sign
    simp [Expressible.operand, sign, expressible, wellKnown]
  cases result : p.result? with
  | none => simp [Operand.placed, result]
  | some r =>
    have halts := results r result
    cases parses with
    | noTest => simp [Operand.placed, result, halts.operator]
    | wordTest is | arrayTest is | tupleTest is =>
      simpa [Operand.placed, result, is] using halts.test

theorem expressed_of_parses {ph : Phrase} (parses : Parses ph c d) (lexical : c.Lexical) :
    ph.Expressed d := by
  induction parses with
  | expression first rest ih ih' =>
    obtain ⟨operands, halts⟩ := expressed_operands rest (ih lexical) (ih' (lexical.after first))
    refine ⟨?_, halts⟩
    simp [Expressible.expr, operands, Word.isKnown]
  | noOperator next => exact ⟨rfl, next, .inl rfl⟩
  | operator next right rest ih ih' =>
    have lexical := lexical.skip_of next
    exact expressed_operands rest (ih lexical) (ih' (lexical.after right))
  | lastExpression last _ ih =>
    refine ⟨List.cons_ne_nil _ _, ?_⟩
    simp [Expressible.exprs, (ih lexical).1]
  | anotherExpression first next rest ih ih' =>
    obtain ⟨-, others⟩ := ih' ((lexical.after first).skip next)
    refine ⟨List.cons_ne_nil _ _, ?_⟩
    simp [Expressible.exprs, (ih lexical).1, others]
  | operand sign inner test ih ih' ih'' =>
    have lexical' := lexical.after sign
    exact expressed_operand (ih lexical) (ih' lexical') test (ih'' (lexical'.after inner))
  | noSign | sign => rfl
  | noTest next => exact ⟨rfl, .inr next⟩
  | wordTest | arrayTest | tupleTest => exact ⟨rfl, .inl rfl⟩
  | read => exact ⟨rfl, by rintro _ ⟨⟩⟩
  | reference next tails ih =>
    have inner : Expressible.tails true _ := ih (lexical.skip next)
    refine ⟨?_, by rintro _ ⟨⟩⟩
    simp [Expressible.primary, lexical.name next, inner]
  | paren left inner right ih => exact ⟨(ih (lexical.skip left)).1, by rintro _ ⟨⟩⟩
  | constant value ih => exact ih lexical
  | noTail => rfl
  | anotherTail first rest ih ih' =>
    have head : Expressible.tail true _ := ih lexical
    have others : Expressible.tails true _ := ih' (lexical.after first)
    simp [Phrase.Expressed, Expressible.tails, head, others]
  | index dot next value => simpa [Phrase.Expressed, Expressible.tail] using integerValue?_nonneg value
  | field dot next => exact (lexical.skip dot).name next
  | subscript left key right ih => exact (ih (lexical.skip left)).1
  | emptyCall => rfl
  | call left arguments right ih => exact (ih (lexical.skip left)).2
  | integer next value =>
    refine ⟨?_, by rintro _ ⟨⟩⟩
    simpa [Expressible.literal] using integerValue?_nonneg value
  | real next value => exact ⟨lexical.real next value, by rintro _ ⟨⟩⟩
  | string | trueWord | falseWord | emptyWord | emptyArray => exact ⟨rfl, by rintro _ ⟨⟩⟩
  | array left elements right ih => exact ⟨(ih (lexical.skip left)).2, by rintro _ ⟨⟩⟩
  | tuple left elements right ih => exact ⟨ih (lexical.skip left), by rintro _ ⟨⟩⟩
  | function word params opening inner closing ih ih' =>
    have lexical' := lexical.skip word
    have names : List.all _ Text.isName := ih lexical'
    have statements : Expressible.body true _ := ih' ((lexical'.after params).skip opening)
    refine ⟨?_, by rintro _ ⟨⟩⟩
    simp only [Expressible.literal, names, statements, Bool.and_self]
  | lambda word params arrow result ih ih' =>
    have lexical' := lexical.skip word
    have names : List.all _ Text.isName := ih lexical'
    obtain ⟨inner, halts⟩ := ih' ((lexical'.after params).skip arrow)
    refine ⟨?_, ?_⟩
    · simp only [Expressible.literal, names, inner, Bool.and_self]
    · rintro _ ⟨⟩
      exact halts
  | noLabel => rfl
  | label next => simp [Phrase.Expressed, lexical.name next]
  | noElement => rfl
  | lastElement label value next ih ih' =>
    have named : (_ || _) = true := ih lexical
    obtain ⟨inner, -⟩ := ih' (lexical.after label)
    simp only [Phrase.Expressed, Expressible.elements, Expressible.element, named, inner, Bool.and_self]
  | anotherElement label value next rest ih ih' ih'' =>
    have lexical' := lexical.after label
    have named : (_ || _) = true := ih lexical
    obtain ⟨inner, -⟩ := ih' lexical'
    have others : Expressible.elements true _ := ih'' ((lexical'.after value).skip next)
    simp only [Phrase.Expressed, Expressible.elements, Expressible.element, named, inner, others,
      Bool.and_self]
  | noName => rfl
  | lastName name => simp [Phrase.Expressed, lexical.name name]
  | anotherName name next rest ih =>
    have others : List.all _ Text.isName := ih ((lexical.skip name).skip next)
    simp only [Phrase.Expressed, List.all_cons, lexical.name name, others, Bool.and_self]
  | noParameters => rfl
  | parameters left names right ih => exact ih (lexical.skip left)
  | noStatement => rfl
  | semicolon next rest ih => exact ih (lexical.skip next)
  | anotherStatement first rest ih ih' =>
    have head : Expressible.statements true _ := ih lexical
    have others : Expressible.statements true _ := ih' (lexical.after first)
    simp only [Phrase.Expressed, statements_append, head, others, Bool.and_self]
  | body inner ih => exact ih lexical
  | declare word inner ih => exact ih (lexical.skip word)
  | branch word condition opening inner closing ih ih' =>
    have lexical' := lexical.skip word
    have yes : Expressible.body true _ := ih' ((lexical'.after condition).skip opening)
    simp [Phrase.Expressed, Expressible.statements, Expressible.statement, (ih lexical').1, yes,
      Body.isMissing]
  | branches word condition opening inner otherwise other closing ih ih' ih'' =>
    have lexical' := lexical.skip word
    have opened := (lexical'.after condition).skip opening
    have yes : Expressible.body true _ := ih' opened
    have no : Expressible.body true _ := ih'' ((opened.after inner).skip otherwise)
    simp [Phrase.Expressed, Expressible.statements, Expressible.statement, (ih lexical').1, yes, no]
  | forLoop word counter range first dots last opening repeated closing ih ih' ih'' =>
    have named := lexical.skip word
    have low := (named.skip counter).skip range
    have high := (low.after first).skip dots
    have inner : Expressible.body true _ := ih'' ((high.after last).skip opening)
    simp [Phrase.Expressed, Expressible.statements, Expressible.statement, named.name counter,
      (ih low).1, (ih' high).1, inner]
  | whileLoop word condition opening repeated closing ih ih' =>
    have lexical' := lexical.skip word
    have inner : Expressible.body true _ := ih' ((lexical'.after condition).skip opening)
    simp [Phrase.Expressed, Expressible.statements, Expressible.statement, (ih lexical').1, inner]
  | print word arguments ih =>
    obtain ⟨nonempty, inner⟩ := ih (lexical.skip word)
    simp [Phrase.Expressed, Expressible.statements, Expressible.statement, nonempty, inner]
  | ret | brk | cont => rfl
  | retValue word value ih =>
    simp [Phrase.Expressed, Expressible.statements, Expressible.statement, (ih (lexical.skip word)).1]
  | assign target next value ih ih' =>
    obtain ⟨reference, -⟩ := ih lexical
    obtain ⟨inner, -⟩ := ih' ((lexical.after target).skip_of next)
    rw [Expressible.primary] at reference
    simp only [Phrase.Expressed, Expressible.statements, Expressible.statement, reference, inner,
      Word.isKnown, Bool.and_self]
  | effect target next last ih =>
    obtain ⟨reference, -⟩ := ih lexical
    rw [Expressible.primary] at reference
    simp only [Phrase.Expressed, Expressible.statements, Expressible.statement, reference, last,
      Expr.isMissing, Bool.and_self]
  | noInitial => rfl
  | initial next value ih => simp [Phrase.Expressed, (ih (lexical.skip next)).1]
  | lastDeclaration name initial next ih =>
    have value : (_ || _) = true := ih (lexical.skip name)
    simp only [Phrase.Expressed, Expressible.statements, Expressible.statement, lexical.name name, value,
      Bool.and_self]
  | anotherDeclaration name initial next rest ih ih' =>
    have lexical' := lexical.skip name
    have value : (_ || _) = true := ih lexical'
    have others : Expressible.statements true _ := ih' ((lexical'.after initial).skip next)
    simp only [Phrase.Expressed, Expressible.statements, Expressible.statement, lexical.name name, value,
      others, Bool.and_self]

end Expressed

end Parser

namespace Lexer

/-- The tokens' texts are of their kinds. -/
def Tokens.Lexical (ts : Tokens) : Prop := ∀ a ∈ ts.symbols, a.isLexical

theorem number_lexical {afterDot : Bool} {b : UInt8} {t : Text} (digit : Text.isDigit b) :
    ((number afterDot (b :: t)).1.symbol (number afterDot (b :: t)).2).isLexical := by
  unfold number
  rw [List.takeWhile_cons_of_pos digit]
  cases afterDot with
  | true => rfl
  | false =>
    simp only [Bool.false_eq_true, if_false]
    split
    · rfl
    · simp [Token.Kind.symbol, Symbol.isLexical, digit]

theorem lexeme_lexical {afterDot : Bool} {b : UInt8} {t : Text} {l : Lexeme}
    (found : lexeme afterDot b t = .ok l) : (l.kind.symbol l.value).isLexical := by
  unfold lexeme at found
  split at found
  next =>
    split at found
    · cases found
      rfl
    · cases found
  next =>
  split at found
  next digit =>
    cases found
    exact number_lexical digit
  next =>
  split at found
  next starts =>
    have part : Text.isNamePart b := by simp [Text.isNamePart, starts]
    simp only [List.takeWhile_cons_of_pos part] at found
    split at found
    next =>
      cases found
      rfl
    next other =>
      cases found
      simp [Lexeme.plain, Token.Kind.symbol, Symbol.isLexical, Text.isName, starts, other]
  next =>
    split at found
    · cases found
      rfl
    · cases found

theorem readFrom_lexical {steps : Nat} {p : Position} {afterDot : Bool} {t : Text} {ts : Tokens}
    (read : readFrom steps p afterDot t = .ok ts) : ∀ token ∈ ts.tokens, token.symbol.isLexical := by
  induction steps generalizing p afterDot t ts with
  | zero =>
    unfold readFrom at read
    simp only at read
    split at read
    · cases read
      simp
    · cases read
    · contradiction
  | succ steps ih =>
    unfold readFrom at read
    simp only at read
    split at read
    · cases read
      simp
    · contradiction
    next same _ =>
      cases same
      split at read
      · cases read
      next found =>
      split at read
      · cases read
      next rest =>
      cases read
      rintro token (_ | ⟨_, held⟩)
      · exact lexeme_lexical found
      · exact ih rest token held

/-- The lexer gives each token a text of its kind. -/
theorem lexical_of_read {source : Text} {ts : Tokens} (read : read source = .ok ts) : ts.Lexical := by
  intro a held
  obtain ⟨token, member, rfl⟩ := List.mem_map.mp ((List.takeWhile_sublist _).subset held)
  exact readFrom_lexical read token member

end Lexer

namespace Parser

theorem expressible_of_parseTokens {ts : Lexer.Tokens} {p : Program} (lexical : ts.Lexical)
    (accepted : parseTokens ts = .ok p) : p.expressible true := by
  obtain ⟨ss, d, parses, -, rfl⟩ := parseTokens_eq_ok.mp accepted
  exact expressed_of_parses parses lexical

/-- The parser returns exactly the expressible trees: what it reads from the lexer's tokens is expressible,
and from the spelling of an expressible tree it reads that tree, its places apart. -/
theorem parsed_exactly_expressible :
    (∀ source ts, Lexer.read source = .ok ts → ts.Lexical) ∧
    (∀ ts p, ts.Lexical → parseTokens ts = .ok p → p.expressible true) ∧
    ∀ (decimal : Float → Text) (p : Program) ts, p.expressible true →
      (∀ x ∈ p.reals, Real.read? (decimal x) = some x) → ts.symbols = p.spelling decimal →
        ∃ q, parseTokens ts = .ok q ∧ q.bare = p.bare :=
  ⟨fun _ _ => Lexer.lexical_of_read, fun _ _ => expressible_of_parseTokens,
    fun _ _ _ => parseTokens_spelling⟩

namespace Example

def half : Float := Float.ofBits 0x3FF8000000000000

def tested : Program :=
  ⟨.zero, .mk .zero [.print .zero [.mk .zero
    [.mk .zero none (.literal .zero (.real .zero half)) (some (.known .real))] []]] false⟩

def testedTokens : Lexer.Tokens :=
  ⟨[⟨.keyword .printWord, [], .zero⟩, ⟨.real, utf8 "1.5", .zero⟩, ⟨.keyword .isWord, [], .zero⟩,
    ⟨.keyword .realWord, [], .zero⟩, ⟨.mark .semicolon, [], .zero⟩], .origin⟩

end Example

open CellScript.Parser.Example in
theorem parsed_exactly_expressible_tested :
    ∃ q, parseTokens testedTokens = .ok q ∧ q.bare = tested.bare := by
  refine parsed_exactly_expressible.2.2 (fun _ => utf8 "1.5") tested testedTokens
    (by decide +kernel) ?_ rfl
  intro x held
  obtain rfl : x = half := List.mem_singleton.mp held
  decide +kernel

namespace Example

/-- A lambda with a type test, which its result's own test leaves to it, and an operand after it. -/
def testedLambda : Text := utf8 "print func => 1 is int is func + 2"

end Example

open CellScript.Parser.Example in
/-- The parser returns a lambda that has a type test and is not the last operand. -/
theorem lambda_tested_inside :
    ∃ p, parse testedLambda = .ok p ∧ p.expressible false = false := by
  have found : ((parse testedLambda).toOption.map (Program.expressible false)) = some false := by
    decide +kernel
  cases parsed : parse testedLambda with
  | error e => simp [parsed, Except.toOption] at found
  | ok p => exact ⟨p, rfl, by simpa [parsed, Except.toOption] using found⟩

end Parser

end CellScript
