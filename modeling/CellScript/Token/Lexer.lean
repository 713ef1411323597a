import CellScript.Token
import CellScript.Text.Quoted

/-! From source bytes to tokens. Blanks and comments separate tokens; numbers, names and marks
take the longest match, and a string keeps its escape sequences as written. -/
namespace CellScript.Lexer

def isSpace (b : UInt8) : Bool := b == 32 || b == 9 || b == 13 || b == 10

/-- Splits off leading blanks and comments. A comment runs from two slashes to the end of its
line; `comment` tells that one is open. -/
def splitGap (comment : Bool) : Text → Text × Text
  | [] => ([], [])
  | b :: t =>
    if comment then
      let (gap, rest) := splitGap (b != 10) t
      (b :: gap, rest)
    else if isSpace b then
      let (gap, rest) := splitGap false t
      (b :: gap, rest)
    else if b == byte '/' && t.head? == some (byte '/') then
      let (gap, rest) := splitGap true t
      (b :: gap, rest)
    else ([], b :: t)

/-- The text of a string literal up to its closing quote, and what follows that quote. A backslash
takes the next byte along, whatever it is; a bare newline or the end leaves the literal open. -/
def stringBody (quote : UInt8) : Text → Option (Text × Text)
  | [] => none
  | b :: t =>
    if b = quote then some ([], t)
    else if b = 92 then
      match t with
      | [] => none
      | c :: t => (stringBody quote t).map fun (s, rest) => (b :: c :: s, rest)
    else if b = 10 then none
    else (stringBody quote t).map fun (s, rest) => (b :: s, rest)

/-- A decimal point with at least one digit after it. -/
def fraction : Text → Text
  | p :: d :: t =>
    if p = byte '.' && Text.isDigit d then p :: (d :: t).takeWhile Text.isDigit else []
  | _ => []

/-- An exponent mark, an optional sign and at least one digit. -/
def exponent : Text → Text
  | e :: d :: t =>
    if e = byte 'e' || e = byte 'E' then
      if Text.isDigit d then e :: (d :: t).takeWhile Text.isDigit
      else if d = byte '+' || d = byte '-' then
        match t.takeWhile Text.isDigit with
        | [] => []
        | ds => e :: d :: ds
      else []
    else []
  | _ => []

/-- The number at the start of a text. After a dot only digits belong to it, so that `t.1.2`
selects twice. -/
def number (afterDot : Bool) (t : Text) : Token.Kind × Text :=
  let whole := t.takeWhile Text.isDigit
  if afterDot then (.integer, whole)
  else
    let rest := t.drop whole.length
    let frac := fraction rest
    let expo := exponent (rest.drop frac.length)
    (if frac.isEmpty && expo.isEmpty then .integer else .real, whole ++ frac ++ expo)

/-- The mark at the start of a text; two bytes are tried before one. -/
def mark? (b : UInt8) (t : Text) : Option Mark :=
  match t with
  | c :: _ => (Vocabulary.ofText? [b, c]).or (Vocabulary.ofText? [b])
  | [] => Vocabulary.ofText? [b]

/-- A token without its place: its kind, its value and the source bytes it covers. -/
structure Lexeme where
  kind : Token.Kind
  value : Text
  source : Text

namespace Lexeme

/-- A token whose value is its source text. -/
def plain (kind : Token.Kind) (source : Text) : Lexeme := ⟨kind, source, source⟩

end Lexeme

inductive Cause where
  | unterminatedString
  | unexpected (b : UInt8)
deriving DecidableEq, Repr

/-- A failure, at the first byte that belongs to no token. -/
structure Error where
  place : Position
  cause : Cause
deriving DecidableEq, Repr

namespace Error

def message (e : Error) : Text :=
  match e.cause with
  | .unterminatedString => utf8 "unterminated string literal"
  | .unexpected b => utf8 "unexpected character " ++ Text.quotedPoint b.toNat

def span (e : Error) : Span := ⟨e.place, ⟨e.place.line, e.place.column + 1⟩⟩

end Error

/-- The token that starts with the byte `b`. -/
def lexeme (afterDot : Bool) (b : UInt8) (t : Text) : Except Cause Lexeme :=
  if b = byte '"' || b = 39 then
    match stringBody b t with
    | some (s, _) => .ok ⟨.string, s, b :: s ++ [b]⟩
    | none => .error .unterminatedString
  else if Text.isDigit b then
    let (kind, source) := number afterDot (b :: t)
    .ok (.plain kind source)
  else if Text.isNameStart b then
    let word := (b :: t).takeWhile Text.isNamePart
    match Vocabulary.ofText? word with
    | some k => .ok (.plain (.keyword k) word)
    | none => .ok (.plain .name word)
  else
    match mark? b t with
    | some m => .ok (.plain (.mark m) (Vocabulary.spelling m))
    | none => .error (.unexpected b)

structure Tokens where
  tokens : List Token
  stop : Position
deriving Repr

namespace Tokens

def endSpan (ts : Tokens) : Span := ⟨ts.stop, ts.stop⟩

/-- All tokens, closed by the one for the end of input. -/
def toList (ts : Tokens) : List Token := ts.tokens ++ [⟨.endOfInput, [], ts.endSpan⟩]

end Tokens

/-- Reads tokens from place `p` on. Each one covers at least one byte, so as many steps as there
are bytes suffice. -/
def readFrom : (steps : Nat) → (p : Position) → (afterDot : Bool) → Text → Except Error Tokens
  | steps, p, afterDot, t =>
    let (gap, rest) := splitGap false t
    let p := p.after gap
    match steps, rest with
    | _, [] => .ok ⟨[], p⟩
    | 0, b :: _ => .error ⟨p, .unexpected b⟩
    | steps + 1, b :: t =>
      match lexeme afterDot b t with
      | .error cause => .error ⟨p, cause⟩
      | .ok l =>
        let stop := p.after l.source
        match readFrom steps stop (l.kind == .mark .dot) ((b :: t).drop l.source.length) with
        | .error e => .error e
        | .ok ts => .ok ⟨⟨l.kind, l.value, ⟨p, stop⟩⟩ :: ts.tokens, ts.stop⟩

def read (source : Text) : Except Error Tokens := readFrom source.length .origin false source

end CellScript.Lexer
