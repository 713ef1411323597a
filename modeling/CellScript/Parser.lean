import CellScript.Parser.Cursor
import CellScript.Real.Reading
import CellScript.Tree

/-! Recursive descent over tokens. Every function takes a bound on its steps; each construct reads
at least one token in a bounded number of steps, so a bound linear in the number of tokens is
never reached. -/
namespace CellScript.Parser

/-- The operator that a token stands for between two operands. -/
def binaryOp? : Token.Kind → Option BinaryOp
  | .mark .star => some .multiply
  | .mark .slash => some .divide
  | .mark .plus => some .add
  | .mark .minus => some .subtract
  | .mark .less => some .less
  | .mark .lessEqual => some .lessEqual
  | .mark .greater => some .greater
  | .mark .greaterEqual => some .greaterEqual
  | .mark .equal => some .equal
  | .mark .notEqual => some .notEqual
  | .keyword .andWord => some .and
  | .keyword .orWord => some .or
  | .keyword .xorWord => some .xor
  | _ => none

def unaryOp? : Token.Kind → Option UnaryOp
  | .mark .plus => some .plus
  | .mark .minus => some .minus
  | .keyword .notWord => some .not
  | _ => none

/-- The type that one token names. -/
def typeWord? : Token.Kind → Option TypeName
  | .keyword .intWord => some .int
  | .keyword .realWord => some .real
  | .keyword .boolWord => some .bool
  | .keyword .stringWord => some .string
  | .keyword .emptyWord => some .empty
  | .keyword .funcWord => some .func
  | _ => none

def readKind? : Token.Kind → Option ReadKind
  | .keyword .readIntWord => some .int
  | .keyword .readRealWord => some .real
  | .keyword .readStringWord => some .string
  | _ => none

def assignOp? : Token.Kind → Option AssignOp
  | .mark .assign => some .set
  | .mark .plusAssign => some .add
  | .mark .minusAssign => some .subtract
  | _ => none

def startsExpression : Token.Kind → Bool
  | .mark .plus | .mark .minus | .keyword .notWord | .keyword .readIntWord
  | .keyword .readRealWord | .keyword .readStringWord | .name | .integer | .real | .string
  | .keyword .trueWord | .keyword .falseWord | .keyword .emptyWord | .mark .leftBracket
  | .mark .leftBrace | .keyword .funcWord | .mark .leftParen => true
  | _ => false

/-- The type after `is`: one word, or a pair of brackets or braces. -/
def typeName : Parse TypeName := do
  let c ← get
  match typeWord? (c.kindAt 0), c.kindAt 0, c.kindAt 1 with
  | some t, _, _ =>
    advance
    return t
  | none, .mark .leftBracket, .mark .rightBracket =>
    advance
    advance
    return .array
  | none, .mark .leftBrace, .mark .rightBrace =>
    advance
    advance
    return .tuple
  | none, _, _ => unexpected "expected type indicator after 'is'"

def unaryOp : Parse (Option (Word UnaryOp)) := do
  match unaryOp? (← peek) with
  | some op =>
    advance
    return some (.known op)
  | none => return none

def typeTest : Parse (Option (Word TypeName)) := do
  if ← accept (.keyword .isWord) then return some (.known (← typeName))
  else return none

/-- The integer that digits denote, if it has 64 bits. -/
def integerValue? (digits : Text) : Option Int64 :=
  let n := Text.digitsValue digits
  if n < Nat.pow 2 63 then some (Int64.ofNat n) else none

/-- A literal of one token, or nothing if the next token is none. -/
def scalar? : Parse (Option Literal) := do
  match (← get).rest with
  | [] => return none
  | t :: _ =>
    match t.kind with
    | .integer =>
      advance
      match integerValue? t.value with
      | some n => return some (.integer t.span n)
      | none => failAt t.span (.integerTooLarge t.value)
    | .real =>
      advance
      match Real.read? t.value with
      | some x => return some (.real t.span x)
      | none => failAt t.span (.realTooLarge t.value)
    | .string =>
      advance
      return some (.string t.span t.value)
    | .keyword .trueWord =>
      advance
      return some (.boolean t.span true)
    | .keyword .falseWord =>
      advance
      return some (.boolean t.span false)
    | .keyword .emptyWord =>
      advance
      return some (.empty t.span)
    | _ => return none

/-- What follows a dot: a position or a name. -/
def selector (start : Span) : Parse Tail := do
  match (← get).rest with
  | t :: _ =>
    match t.kind with
    | .integer =>
      advance
      match integerValue? t.value with
      | some i => return .index (← spanFrom start) i
      | none => failAt t.span .indexTooLarge
    | .name =>
      advance
      return .field (← spanFrom start) t.value
    | _ => unexpected "expected tuple index or field name after '.'"
  | [] => unexpected "expected tuple index or field name after '.'"

/-- Parameter names up to the closing parenthesis; a comma may follow the last one. -/
def parameterNames : (steps : Nat) → Parse (List Text)
  | 0 => do failAt (← here) .stepsExhausted
  | n + 1 => do
    if (← peek) = .mark .rightParen then return []
    let name ← expectName "in parameter list"
    if ← accept (.mark .comma) then return name :: (← parameterNames n)
    else return [name]

def parameters (steps : Nat) : Parse (List Text) := do
  if ← accept (.mark .leftParen) then
    let names ← parameterNames steps
    expectMark .rightParen "to close parameter list"
    return names
  else return []

/-- The name of a tuple element, which an assignment mark follows; empty if there is none. -/
def elementName : Parse Text := do
  let c ← get
  match c.rest with
  | t :: _ =>
    if t.kind = .name && c.kindAt 1 = .mark .assign then
      advance
      advance
      return t.value
    else return []
  | [] => return []

/-- Whether a call stands last. -/
def endsInCall (tails : List Tail) : Bool :=
  match tails.getLast? with
  | some (.call _ _) => true
  | _ => false

mutual

def expression : (steps : Nat) → Parse Expr
  | 0 => do failAt (← here) .stepsExhausted
  | n + 1 => do
    let start ← here
    let first ← operand n
    let more ← moreOperands n
    return .mk (← spanFrom start) (first :: more.map (·.2)) (more.map fun (op, _) => .known op)

def moreOperands : (steps : Nat) → Parse (List (BinaryOp × Operand))
  | 0 => do failAt (← here) .stepsExhausted
  | n + 1 => do
    match binaryOp? (← peek) with
    | some op =>
      advance
      let x ← operand n
      return (op, x) :: (← moreOperands n)
    | none => return []

def expressionList : (steps : Nat) → Parse (List Expr)
  | 0 => do failAt (← here) .stepsExhausted
  | n + 1 => do
    let e ← expression n
    if ← accept (.mark .comma) then return e :: (← expressionList n)
    else return [e]

def operand : (steps : Nat) → Parse Operand
  | 0 => do failAt (← here) .stepsExhausted
  | n + 1 => do
    let start ← here
    let op ← unaryOp
    let p ← primary n
    let test ← typeTest
    return .mk (← spanFrom start) op p test

def primary : (steps : Nat) → Parse Primary
  | 0 => do failAt (← here) .stepsExhausted
  | n + 1 => do
    let start ← here
    let kind ← peek
    if let some r := readKind? kind then
      advance
      return .read start (.known r)
    else if kind = .name then variablePrimary n
    else if kind = .mark .leftParen then
      advance
      let inner ← expression n
      expectMark .rightParen "to close parenthesised expression"
      return .paren (← spanFrom start) inner
    else
      let l ← literal n
      return .literal (← spanFrom start) l

def variablePrimary : (steps : Nat) → Parse Primary
  | 0 => do failAt (← here) .stepsExhausted
  | n + 1 => do
    let start ← here
    let name ← expectName "in expression"
    let ts ← tails n
    return .ref (← spanFrom start) name ts

def tails : (steps : Nat) → Parse (List Tail)
  | 0 => do failAt (← here) .stepsExhausted
  | n + 1 => do
    match ← tail? n with
    | some t => return t :: (← tails n)
    | none => return []

/-- A tail, or nothing if the next token begins none. -/
def tail? : (steps : Nat) → Parse (Option Tail)
  | 0 => do failAt (← here) .stepsExhausted
  | n + 1 => do
    let start ← here
    if ← accept (.mark .dot) then return some (← selector start)
    else if ← accept (.mark .leftBracket) then
      let key ← expression n
      expectMark .rightBracket "to close subscript"
      return some (.subscript (← spanFrom start) key)
    else if ← accept (.mark .leftParen) then
      let arguments ← if (← peek) = .mark .rightParen then pure [] else expressionList n
      expectMark .rightParen "to close argument list"
      return some (.call (← spanFrom start) arguments)
    else return none

def literal : (steps : Nat) → Parse Literal
  | 0 => do failAt (← here) .stepsExhausted
  | n + 1 => do
    let start ← here
    match ← scalar? with
    | some l => return l
    | none =>
      if ← accept (.mark .leftBracket) then
        let elements ← if (← peek) = .mark .rightBracket then pure [] else expressionList n
        expectMark .rightBracket "to close array literal"
        return .array (← spanFrom start) elements
      else if ← accept (.mark .leftBrace) then
        let elements ← tupleElements n
        expectMark .rightBrace "to close tuple literal"
        return .tuple (← spanFrom start) elements
      else if ← accept (.keyword .funcWord) then functionLiteral n start
      else unexpected "expected expression"

/-- Tuple elements up to the closing brace; a comma may follow the last one. -/
def tupleElements : (steps : Nat) → Parse (List Element)
  | 0 => do failAt (← here) .stepsExhausted
  | n + 1 => do
    if (← peek) = .mark .rightBrace then return []
    let start ← here
    let name ← elementName
    let value ← expression n
    let e := Element.mk (← spanFrom start) name value
    if ← accept (.mark .comma) then return e :: (← tupleElements n)
    else return [e]

/-- The rest of a function literal that starts at `start`. -/
def functionLiteral : (steps : Nat) → (start : Span) → Parse Literal
  | 0, _ => do failAt (← here) .stepsExhausted
  | n + 1, start => do
    let params ← parameters n
    if ← accept (.keyword .isWord) then
      let b ← body n [.keyword .endWord]
      expectWord .endWord "to close function body"
      return .function (← spanFrom start) params b
    else if ← accept (.mark .arrow) then
      let result ← expression n
      return .lambda (← spanFrom start) params result
    else unexpected "expected 'is' or '=>' after function parameters"

/-- Statements up to one of the closing tokens, which is left unread. -/
def statements : (steps : Nat) → (closing : List Token.Kind) → Parse (List Statement)
  | 0, _ => do failAt (← here) .stepsExhausted
  | n + 1, closing => do
    if ← accept (.mark .semicolon) then statements n closing
    else
      let kind ← peek
      if closing.contains kind then return []
      else if kind = .endOfInput then unexpected "expected 'end'"
      else
        let first ← statement n
        return first ++ (← statements n closing)

/-- A body. One without statements has the place of the token after its opening. -/
def body : (steps : Nat) → (closing : List Token.Kind) → Parse Body
  | 0, _ => do failAt (← here) .stepsExhausted
  | n + 1, closing => do
    let start ← here
    let ss ← statements n closing
    let span ← if ss.isEmpty then pure start else spanFrom start
    return .mk span ss false

/-- The statements that one statement of the source stands for: a declaration of several names
is one for each. -/
def statement : (steps : Nat) → Parse (List Statement)
  | 0 => do failAt (← here) .stepsExhausted
  | n + 1 => do
    let start ← here
    match ← peek with
    | .keyword .varWord =>
      advance
      declarations n
    | .keyword .ifWord =>
      advance
      return [← branch n start]
    | .keyword .forWord =>
      advance
      return [← forLoop n start]
    | .keyword .whileWord =>
      advance
      return [← whileLoop n start]
    | .keyword .printWord =>
      advance
      let arguments ← expressionList n
      return [.print (← spanFrom start) arguments]
    | .keyword .returnWord =>
      advance
      let value ← if startsExpression (← peek) then expression n else pure .missing
      return [.ret (← spanFrom start) value]
    | .keyword .breakWord =>
      advance
      return [.brk start]
    | .keyword .continueWord =>
      advance
      return [.cont start]
    | .name => return [← assignment n]
    | _ => unexpected "expected statement"

/-- Names with optional initial values. A comma goes on only before another name. -/
def declarations : (steps : Nat) → Parse (List Statement)
  | 0 => do failAt (← here) .stepsExhausted
  | n + 1 => do
    let start ← here
    let name ← expectName "after 'var'"
    let initial ← if ← accept (.mark .assign) then expression n else pure .missing
    let d := Statement.declare (← spanFrom start) name initial
    let c ← get
    if c.kindAt 0 = .mark .comma && c.kindAt 1 = .name then
      advance
      return d :: (← declarations n)
    else return [d]

/-- An assignment, or a call for its effects. -/
def assignment : (steps : Nat) → Parse Statement
  | 0 => do failAt (← here) .stepsExhausted
  | n + 1 => do
    let start ← here
    let target ← variablePrimary n
    match assignOp? (← peek) with
    | some op =>
      advance
      let value ← expression n
      return .assign (← spanFrom start) target (some (.known op)) value
    | none =>
      match target with
      | .ref _ _ ts =>
        if endsInCall ts then return .assign (← spanFrom start) target none .missing
        else unexpected "expected ':=', '+=', '-=' or a call"
      | _ => unexpected "expected ':=', '+=', '-=' or a call"

/-- The rest of an `if` that starts at `start`. -/
def branch : (steps : Nat) → (start : Span) → Parse Statement
  | 0, _ => do failAt (← here) .stepsExhausted
  | n + 1, start => do
    let condition ← expression n
    expectWord .thenWord "after if condition"
    let yes ← body n [.keyword .elseWord, .keyword .endWord]
    let no ← if ← accept (.keyword .elseWord) then body n [.keyword .endWord] else pure .missing
    expectWord .endWord "to close if"
    return .branch (← spanFrom start) condition yes no

def forLoop : (steps : Nat) → (start : Span) → Parse Statement
  | 0, _ => do failAt (← here) .stepsExhausted
  | n + 1, start => do
    let counter ← expectName "after 'for'"
    expectWord .inWord "after loop variable"
    let low ← expression n
    expectMark .dotDot "in range"
    let high ← expression n
    expectWord .loopWord "after range"
    let b ← body n [.keyword .endWord]
    expectWord .endWord "to close for"
    return .forLoop (← spanFrom start) counter low high b

def whileLoop : (steps : Nat) → (start : Span) → Parse Statement
  | 0, _ => do failAt (← here) .stepsExhausted
  | n + 1, start => do
    let condition ← expression n
    expectWord .loopWord "after while condition"
    let b ← body n [.keyword .endWord]
    expectWord .endWord "to close while"
    return .whileLoop (← spanFrom start) condition b

end

def program (steps : Nat) : Parse Program := do
  let start ← here
  let ss ← statements steps [.endOfInput]
  let span ← spanFrom start
  return ⟨span, .mk span ss false⟩

def parseTokens (ts : Lexer.Tokens) : Except Error Program :=
  match (program (16 * (ts.tokens.length + 1))).run (.ofTokens ts) with
  | .ok (p, _) => .ok p
  | .error e => .error e

def parse (source : Text) : Except Error Program :=
  match Lexer.read source with
  | .ok ts => parseTokens ts
  | .error e => .error ⟨e.span, .lexical e.cause⟩

end CellScript.Parser
