import CellScript.Token.Lexer

/-! Reading tokens one by one, with the place of the last one read. -/
namespace CellScript.Parser

/-- Why a source is no program. -/
inductive Cause where
  | lexical (cause : Lexer.Cause)
  | expected (what : String) (found : Option Text)
  | integerTooLarge (digits : Text)
  | indexTooLarge
  | realTooLarge (digits : Text)
  | stepsExhausted
deriving DecidableEq, Repr

structure Error where
  span : Span
  cause : Cause
deriving DecidableEq, Repr

namespace Error

def message (e : Error) : Text :=
  match e.cause with
  | .lexical cause => (Lexer.Error.mk e.span.start cause).message
  | .expected what none => utf8 (what ++ ", found end of input")
  | .expected what (some token) => utf8 (what ++ ", found ") ++ token.quoted
  | .integerTooLarge digits => utf8 "integer literal out of range: " ++ digits
  | .indexTooLarge => utf8 "tuple index out of range"
  | .realTooLarge digits => utf8 "invalid real literal: " ++ digits
  | .stepsExhausted => utf8 "program too long"

/-- Whether the input ended before the construct being read was finished. -/
def incomplete (e : Error) : Bool :=
  match e.cause with
  | .expected _ none => true
  | _ => false

end Error

/-- A message with the place it is about: the path, if there is one, then the line and column. -/
def located (path : Text) (span : Span) (message : Text) : Text :=
  (if path.isEmpty then [] else path ++ [byte ':']) ++ span.start.text ++ utf8 ": " ++ message

def Error.text (path : Text) (e : Error) : Text := located path e.span e.message

/-- The tokens still to be read, the place of the last one read, and the place of the end. -/
structure Cursor where
  rest : List Token
  last : Option Span
  stop : Span
deriving Repr

namespace Cursor

def ofTokens (ts : Lexer.Tokens) : Cursor := ⟨ts.tokens, none, ts.endSpan⟩

def kindAt (c : Cursor) (k : Nat) : Token.Kind :=
  match c.rest[k]? with
  | some t => t.kind
  | none => .endOfInput

def nextSpan (c : Cursor) : Span :=
  match c.rest with
  | t :: _ => t.span
  | [] => c.stop

/-- The place of the last token read; before the first one, that of the next. -/
def lastSpan (c : Cursor) : Span := c.last.getD c.nextSpan

end Cursor

/-- A step of the parser: it reads tokens or fails. -/
abbrev Parse (α : Type) := StateT Cursor (Except Error) α

def peek : Parse Token.Kind := return (← get).kindAt 0

/-- The place where the construct about to be read starts. -/
def here : Parse Span := return (← get).nextSpan

def spanFrom (start : Span) : Parse Span := return start.upTo (← get).lastSpan

def advance : Parse Unit :=
  modify fun c =>
    match c.rest with
    | t :: rest => { c with rest := rest, last := some t.span }
    | [] => c

def failAt {α : Type} (span : Span) (cause : Cause) : Parse α := throw ⟨span, cause⟩

/-- Fails at the next token because something else was expected. -/
def unexpected {α : Type} (what : String) : Parse α := do
  let c ← get
  failAt c.nextSpan (.expected what (c.rest.head?.map (·.value)))

/-- Passes over the next token if it is of the given kind. -/
def accept (kind : Token.Kind) : Parse Bool := do
  if (← peek) = kind then
    advance
    return true
  else return false

/-- Reads a token of the given kind and gives its text. -/
def expect (kind : Token.Kind) (name context : String) : Parse Text := do
  match (← get).rest with
  | t :: _ =>
    if t.kind = kind then
      advance
      return t.value
    else unexpected ("expected " ++ name ++ " " ++ context)
  | [] => unexpected ("expected " ++ name ++ " " ++ context)

def expectMark (m : Mark) (context : String) : Parse Unit := do
  let _ ← expect (.mark m) ("'" ++ m.spelling ++ "'") context

def expectWord (k : Keyword) (context : String) : Parse Unit := do
  let _ ← expect (.keyword k) ("'" ++ k.spelling ++ "'") context

def expectName (context : String) : Parse Text := expect .name "identifier" context

end CellScript.Parser
