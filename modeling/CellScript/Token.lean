import CellScript.Span
import CellScript.Vocabulary

/-! Tokens: the words and marks a source is made of. -/
namespace CellScript

inductive Keyword where
  | varWord | ifWord | thenWord | elseWord | endWord | forWord | inWord | loopWord | whileWord
  | printWord | returnWord | breakWord | continueWord | funcWord | isWord | andWord | orWord
  | xorWord | notWord | trueWord | falseWord | emptyWord | readIntWord | readRealWord
  | readStringWord | intWord | realWord | boolWord | stringWord
deriving DecidableEq, Repr

namespace Keyword

def spelling : Keyword → String
  | varWord => "var" | ifWord => "if" | thenWord => "then" | elseWord => "else" | endWord => "end"
  | forWord => "for" | inWord => "in" | loopWord => "loop" | whileWord => "while"
  | printWord => "print" | returnWord => "return" | breakWord => "break"
  | continueWord => "continue" | funcWord => "func" | isWord => "is" | andWord => "and"
  | orWord => "or" | xorWord => "xor" | notWord => "not" | trueWord => "true"
  | falseWord => "false" | emptyWord => "empty" | readIntWord => "readInt"
  | readRealWord => "readReal" | readStringWord => "readString" | intWord => "int"
  | realWord => "real" | boolWord => "bool" | stringWord => "string"

instance : Vocabulary Keyword where
  all := [varWord, ifWord, thenWord, elseWord, endWord, forWord, inWord, loopWord, whileWord,
    printWord, returnWord, breakWord, continueWord, funcWord, isWord, andWord, orWord, xorWord,
    notWord, trueWord, falseWord, emptyWord, readIntWord, readRealWord, readStringWord, intWord,
    realWord, boolWord, stringWord]
  spelling k := utf8 k.spelling

end Keyword

/-- Punctuation marks of one or two bytes. -/
inductive Mark where
  | assign | plusAssign | minusAssign | plus | minus | star | slash | less | lessEqual | greater
  | greaterEqual | equal | notEqual | arrow | leftParen | rightParen | leftBracket | rightBracket
  | leftBrace | rightBrace | comma | dot | dotDot | semicolon
deriving DecidableEq, Repr

namespace Mark

def spelling : Mark → String
  | assign => ":=" | plusAssign => "+=" | minusAssign => "-=" | plus => "+" | minus => "-"
  | star => "*" | slash => "/" | less => "<" | lessEqual => "<=" | greater => ">"
  | greaterEqual => ">=" | equal => "=" | notEqual => "/=" | arrow => "=>" | leftParen => "("
  | rightParen => ")" | leftBracket => "[" | rightBracket => "]" | leftBrace => "\x7b"
  | rightBrace => "\x7d" | comma => "," | dot => "." | dotDot => ".." | semicolon => ";"

instance : Vocabulary Mark where
  all := [assign, plusAssign, minusAssign, plus, minus, star, slash, less, lessEqual, greater,
    greaterEqual, equal, notEqual, arrow, leftParen, rightParen, leftBracket, rightBracket,
    leftBrace, rightBrace, comma, dot, dotDot, semicolon]
  spelling m := utf8 m.spelling

end Mark

namespace Token

inductive Kind where
  | keyword (k : Keyword)
  | integer
  | real
  | string
  | name
  | mark (m : Mark)
  | endOfInput
deriving DecidableEq, Repr

namespace Kind

/-- All kinds in the order of their numbers. -/
def all : List Kind :=
  (Vocabulary.all.map keyword) ++ [integer, real, string, name] ++ (Vocabulary.all.map mark) ++
    [endOfInput]

def describe : Kind → Text
  | keyword k => utf8 ("'" ++ k.spelling ++ "'")
  | integer => utf8 "integer literal"
  | real => utf8 "real literal"
  | string => utf8 "string literal"
  | name => utf8 "identifier"
  | mark m => utf8 ("'" ++ m.spelling ++ "'")
  | endOfInput => utf8 "end of input"

/-- The description of the kind with a number, or the number itself. -/
def describeNumber (code : Int) : Text :=
  match (if code < 0 then none else all[code.toNat]?) with
  | some k => k.describe
  | none => utf8 "token(" ++ Text.ofInt code ++ utf8 ")"

end Kind

end Token

/-- A token with its text. For a string literal the text is what stands between the quotes, with
escape sequences as written. -/
structure Token where
  kind : Token.Kind
  value : Text
  span : Span
deriving DecidableEq, Repr

end CellScript
