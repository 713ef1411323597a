import CellScript.Text.Units

/-! The characters of a YAML text and a place among them. -/
namespace CellScript.Yaml

/-- Code points that may stand in a text. -/
def isReadable (n : Nat) : Bool :=
  n == 9 || n == 10 || n == 13 || (32 ≤ n && n ≤ 126) || n == 0x85 ||
    (0xA0 ≤ n && n ≤ 0xFFFD) || 0x10000 ≤ n

/-- The code points of a text. A mark at the start may announce 16-bit units. -/
def codes? (t : Text) : Option (List Nat) :=
  match t with
  | 0xFF :: 0xFE :: t => (Units.ofBytes? false t).bind Units.codes?
  | 0xFE :: 0xFF :: t => (Units.ofBytes? true t).bind Units.codes?
  | t =>
    let t := if (utf8 "\ufeff").isPrefixOf t then t.drop 3 else t
    (Text.runes t).mapM fun
      | .point n => some n
      | .stray _ => none

/-- The characters of a text, if all of them may stand in one. -/
def characters? (t : Text) : Option (List Char) := do
  let codes ← codes? t
  if codes.all isReadable then some (codes.map Char.ofNat) else none

def bytes (cs : List Char) : Text := cs.flatMap fun c => Rune.encode c.toNat

def isBlank (c : Char) : Bool := c == ' ' || c == '\t'

def lineSeparator : Char := Char.ofNat 0x2028

def paragraphSeparator : Char := Char.ofNat 0x2029

def isBreak (c : Char) : Bool :=
  c == '\n' || c == '\r' || c == Char.ofNat 0x85 || c == lineSeparator || c == paragraphSeparator

def isGap (c : Char) : Bool := isBlank c || isBreak c

/-- Letters, digits, the underscore and the dash. -/
def isWordPart (c : Char) : Bool := c.isAlphanum || c == '_' || c == '-'

def atGap (t : List Char) : Bool := t.head?.all isGap

/-- What a line end stands for inside a scalar. -/
def breakText (c : Char) : List Char :=
  if c == lineSeparator || c == paragraphSeparator then [c] else ['\n']

/-- The text before the first line end, and each line end with the text after it. A
carriage return and a newline make one line end. -/
def splitLines : List Char → List Char × List (List Char × List Char)
  | [] => ([], [])
  | '\r' :: '\n' :: t =>
    let (line, lines) := splitLines t
    ([], (['\n'], line) :: lines)
  | c :: t =>
    let (line, lines) := splitLines t
    if isBreak c then ([], (breakText c, line) :: lines) else (c :: line, lines)

/-- How many characters the line end at the start of a text takes. -/
def breakLength : List Char → Nat
  | '\r' :: '\n' :: _ => 2
  | c :: _ => if isBreak c then 1 else 0
  | [] => 0

/-- Whether three equal characters at the start of a line separate documents here. -/
def isDocumentMark (t : List Char) : Bool :=
  (t.take 3 == ['-', '-', '-'] || t.take 3 == ['.', '.', '.']) && atGap (t.drop 3)

structure Cursor where
  rest : List Char
  /-- How many characters lie before it. -/
  index : Nat
  line : Nat
  column : Nat
  /-- Whether nothing but blanks lies between the last line end and it. -/
  lineStart : Bool

namespace Cursor

def ofCharacters (cs : List Char) : Cursor := ⟨cs, 0, 0, 0, false⟩

/-- The place after `n` more characters. A run that is passed over holds whole line ends. -/
def pass (c : Cursor) (n : Nat) : Cursor :=
  let run := c.rest.take n
  let (before, lines) := splitLines run
  let last := (lines.getLast?.map (·.2)).getD before
  { rest := c.rest.drop n
    index := c.index + run.length
    line := c.line + lines.length
    column := if lines.isEmpty then c.column + before.length else last.length
    lineStart := (c.lineStart || !lines.isEmpty) && last.all isBlank }

/-- The place after all characters up to one without the property. -/
def passWhile (c : Cursor) (p : Char → Bool) : Cursor := c.pass (c.rest.takeWhile p).length

end Cursor

end CellScript.Yaml
