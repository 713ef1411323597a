import CellScript.Proofs.Parsing.Grammar
import CellScript.Proofs.Tree.Content

/-! The trees that a source can spell, and how: each statement with a semicolon after it, and each
declaration by itself. -/
namespace CellScript

/-- A text that is a name: a letter or underscore, letters, digits and underscores after it, and no
keyword. -/
def Text.isName : Text → Bool
  | [] => false
  | b :: t => isNameStart b && t.all isNamePart && (Vocabulary.ofText? (b :: t) : Option Keyword).isNone

/-- Finite and without a minus sign. -/
def Real.isPlain (x : Float) : Bool :=
  match decode x with
  | .finite negative _ => !negative
  | .nan | .infinite _ => false

def Operand.isTested : Operand → Bool
  | .mk _ _ _ test => test.isSome

/-- Whether the last operand has a type test. -/
def lastTested (xs : List Operand) : Bool := (xs.getLast?.map Operand.isTested).getD false

def Expr.endsTested : Expr → Bool
  | .missing => false
  | .mk _ xs _ => lastTested xs

/-- The result, if the literal is a lambda. -/
def Literal.result? : Literal → Option Expr
  | .lambda _ _ result => some result
  | _ => none

def Primary.result? : Primary → Option Expr
  | .literal _ l => l.result?
  | _ => none

/-- Where an operand can stand. A lambda takes all operators after it into its result, and a type test
too, unless the result already ends in one. So it stands last and has no test; if `tested`, it may also
have a test after one of its result. -/
def Operand.placed (tested isLast : Bool) : Operand → Bool
  | .mk _ _ p test =>
    match p.result?, test with
    | none, _ => true
    | some _, none => isLast
    | some result, some _ => tested && result.endsTested

namespace Expressible

variable (tested : Bool)

mutual

def expr : Expr → Bool
  | .missing => false
  | .mk _ xs ops =>
    !xs.isEmpty && ops.length + 1 == xs.length && ops.all Word.isKnown && operands xs

def exprs : List Expr → Bool
  | [] => true
  | e :: es => expr e && exprs es

def operand : Operand → Bool
  | .mk _ op p test => op.all Word.isKnown && primary p && test.all Word.isKnown

def operands : List Operand → Bool
  | [] => true
  | x :: xs => operand x && x.placed tested xs.isEmpty && operands xs

def primary : Primary → Bool
  | .read _ kind => kind.isKnown
  | .ref _ name ts => name.isName && tails ts
  | .literal _ l => literal l
  | .paren _ inner => expr inner

def tail : Tail → Bool
  | .index _ i => 0 ≤ i.toInt
  | .field _ name => name.isName
  | .subscript _ key => expr key
  | .call _ arguments => exprs arguments

def tails : List Tail → Bool
  | [] => true
  | t :: ts => tail t && tails ts

def literal : Literal → Bool
  | .missing => false
  | .integer _ n => 0 ≤ n.toInt
  | .real _ x => Real.isPlain x
  | .boolean _ _ | .string _ _ | .empty _ => true
  | .array _ es => exprs es
  | .tuple _ es => elements es
  | .function _ params b => params.all Text.isName && body b
  | .lambda _ params result => params.all Text.isName && expr result

def element : Element → Bool
  | .mk _ name value => (name.isEmpty || name.isName) && expr value

def elements : List Element → Bool
  | [] => true
  | e :: es => element e && elements es

def statement : Statement → Bool
  | .declare _ name initial => name.isName && (initial.isMissing || expr initial)
  | .assign _ (.ref _ name ts) none value =>
    name.isName && tails ts && Parser.endsInCall ts && value.isMissing
  | .assign _ (.ref _ name ts) (some op) value => name.isName && tails ts && op.isKnown && expr value
  | .assign .. => false
  | .branch _ condition yes no => expr condition && body yes && (no.isMissing || body no)
  | .forLoop _ counter low high b => counter.isName && expr low && expr high && body b
  | .whileLoop _ condition b => expr condition && body b
  | .print _ arguments => !arguments.isEmpty && exprs arguments
  | .ret _ value => value.isMissing || expr value
  | .brk _ | .cont _ => true
  | .block _ => false

def statements : List Statement → Bool
  | [] => true
  | s :: ss => statement s && statements ss

def body : Body → Bool
  | .missing => false
  | .mk _ ss _ => statements ss

end

end Expressible

/-- Whether a source can spell the program; `tested` says whether a lambda may carry a type test. -/
def Program.expressible (tested : Bool) (p : Program) : Bool := Expressible.body tested p.body

namespace Spelling

/-- The symbol of a word of the vocabulary. -/
def known {α : Type} [Vocabulary α] (symbols : α → List Symbol) : Word α → List Symbol
  | .known a => symbols a
  | .other _ _ => []

def integer (n : Int64) : Symbol := .integer (Text.ofNat n.toInt.toNat)

def names : List Text → List Symbol
  | [] => []
  | x :: xs => .name x :: if xs.isEmpty then [] else .mark .comma :: names xs

def label (name : Text) : List Symbol :=
  if name.isEmpty then [] else [.name name, .mark .assign]

variable (decimal : Float → Text)

mutual

def expr : Expr → List Symbol
  | .missing => []
  | .mk _ [] _ => []
  | .mk _ (x :: xs) ops => operand x ++ operators xs ops

def operators : List Operand → List (Word BinaryOp) → List Symbol
  | x :: xs, op :: ops => known (fun op => [op.symbol]) op ++ operand x ++ operators xs ops
  | _, _ => []

def exprs : List Expr → List Symbol
  | [] => []
  | e :: es => expr e ++ if es.isEmpty then [] else .mark .comma :: exprs es

def operand : Operand → List Symbol
  | .mk _ op p test =>
    (op.map (known fun op => [op.symbol])).getD [] ++ primary p ++
      (test.map (known fun t => .word .isWord :: t.symbols)).getD []

def primary : Primary → List Symbol
  | .read _ kind => known (fun k => [k.symbol]) kind
  | .ref _ name ts => .name name :: tails ts
  | .literal _ l => literal l
  | .paren _ inner => .mark .leftParen :: expr inner ++ [.mark .rightParen]

def tail : Tail → List Symbol
  | .index _ i => [.mark .dot, integer i]
  | .field _ name => [.mark .dot, .name name]
  | .subscript _ key => .mark .leftBracket :: expr key ++ [.mark .rightBracket]
  | .call _ arguments => .mark .leftParen :: exprs arguments ++ [.mark .rightParen]

def tails : List Tail → List Symbol
  | [] => []
  | t :: ts => tail t ++ tails ts

def literal : Literal → List Symbol
  | .missing => []
  | .integer _ n => [integer n]
  | .real _ x => [.real (decimal x)]
  | .boolean _ b => [.word (if b then .trueWord else .falseWord)]
  | .string _ t => [.string t]
  | .empty _ => [.word .emptyWord]
  | .array _ es => .mark .leftBracket :: exprs es ++ [.mark .rightBracket]
  | .tuple _ es => .mark .leftBrace :: elements es ++ [.mark .rightBrace]
  | .function _ params b =>
    .word .funcWord :: .mark .leftParen :: names params ++ .mark .rightParen :: .word .isWord :: body b ++
      [.word .endWord]
  | .lambda _ params result =>
    .word .funcWord :: .mark .leftParen :: names params ++ .mark .rightParen :: .mark .arrow :: expr result

def element : Element → List Symbol
  | .mk _ name value => label name ++ expr value

def elements : List Element → List Symbol
  | [] => []
  | e :: es => element e ++ if es.isEmpty then [] else .mark .comma :: elements es

def statement : Statement → List Symbol
  | .declare _ name initial =>
    .word .varWord :: .name name :: if initial.isMissing then [] else .mark .assign :: expr initial
  | .assign _ target op value =>
    primary target ++ (op.map (known fun op => [op.symbol])).getD [] ++ expr value
  | .branch _ condition yes no =>
    .word .ifWord :: expr condition ++ .word .thenWord :: body yes ++
      (if no.isMissing then [] else .word .elseWord :: body no) ++ [.word .endWord]
  | .forLoop _ counter low high b =>
    .word .forWord :: .name counter :: .word .inWord :: expr low ++ .mark .dotDot :: expr high ++
      .word .loopWord :: body b ++ [.word .endWord]
  | .whileLoop _ condition b =>
    .word .whileWord :: expr condition ++ .word .loopWord :: body b ++ [.word .endWord]
  | .print _ arguments => .word .printWord :: exprs arguments
  | .ret _ value => .word .returnWord :: expr value
  | .brk _ => [.word .breakWord]
  | .cont _ => [.word .continueWord]
  | .block b => body b

def statements : List Statement → List Symbol
  | [] => []
  | s :: ss => statement s ++ .mark .semicolon :: statements ss

def body : Body → List Symbol
  | .missing => []
  | .mk _ ss _ => statements ss

end

section

variable (span : Span) (name : Text) (e low high : Expr) (b yes no : Body)

theorem statement_declare : statement decimal (.declare span name e) =
    .word .varWord :: .name name :: if e.isMissing then [] else .mark .assign :: expr decimal e := rfl

theorem statement_assign (target : Primary) (op : Option (Word AssignOp)) :
    statement decimal (.assign span target op e) =
      primary decimal target ++ (op.map (known fun op => [op.symbol])).getD [] ++ expr decimal e := rfl

theorem statement_branch : statement decimal (.branch span e yes no) =
    .word .ifWord :: expr decimal e ++ .word .thenWord :: body decimal yes ++
      (if no.isMissing then [] else .word .elseWord :: body decimal no) ++ [.word .endWord] := rfl

theorem statement_forLoop : statement decimal (.forLoop span name low high b) =
    .word .forWord :: .name name :: .word .inWord :: expr decimal low ++ .mark .dotDot :: expr decimal high ++
      .word .loopWord :: body decimal b ++ [.word .endWord] := rfl

theorem statement_whileLoop : statement decimal (.whileLoop span e b) =
    .word .whileWord :: expr decimal e ++ .word .loopWord :: body decimal b ++ [.word .endWord] := rfl

end

end Spelling

/-- The symbols that spell the program, where `decimal` gives the texts of reals. -/
def Program.spelling (decimal : Float → Text) (p : Program) : List Symbol := Spelling.body decimal p.body

end CellScript
