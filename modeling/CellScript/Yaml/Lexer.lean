import CellScript.Yaml.Scalar
import CellScript.Yaml.Token

/-! From characters to tokens. Tokens are found on demand: whether a node is the key of an entry
shows only when its colon is met, so a token waits in a queue until that is settled and the two
after it have been found. -/
namespace CellScript.Yaml

/-- A node that is the key of an entry if a colon follows on its line. -/
structure KeyCandidate where
  /-- Whether nothing else may stand where it stands. -/
  required : Bool
  /-- The number of its first token. -/
  number : Nat
  index : Nat
  line : Nat
  column : Nat

structure Lexer where
  cursor : Cursor
  /-- The indentations of the open blocks, the innermost first. -/
  indents : List Nat
  /-- The candidate of the innermost flow, or of the block outside all flows. -/
  candidate : Option KeyCandidate
  /-- The candidates around the open flows, the innermost first. -/
  outer : List (Option KeyCandidate)
  /-- Whether a key may start here. -/
  keyAllowed : Bool
  /-- Tokens found and not yet taken. -/
  queue : List Token
  /-- How many tokens have been taken. -/
  taken : Nat

namespace Lexer

def ofCharacters (cs : List Char) : Lexer :=
  ⟨.ofCharacters cs, [], none, [], true, [], 0⟩

def inFlow (s : Lexer) : Bool := !s.outer.isEmpty

/-- The least indentation of lines that go on with a node. -/
def inner (s : Lexer) : Nat := (s.indents.head?.map (· + 1)).getD 0

def pass (s : Lexer) (n : Nat) : Lexer := { s with cursor := s.cursor.pass n }

def push (s : Lexer) (t : Token) : Lexer := { s with queue := s.queue ++ [t] }

def insert (s : Lexer) (number : Nat) (t : Token) : Lexer :=
  { s with queue := s.queue.insertIdx (number - s.taken) t }

/-- A key ends on the line where it starts and is no longer than this. -/
def maxKeyLength : Nat := 1024

/-- Whether a candidate can still become a key; a required one must not lapse. -/
def open? (s : Lexer) (k : KeyCandidate) : Option Bool :=
  if k.line < s.cursor.line || k.index + maxKeyLength < s.cursor.index then
    if k.required then none else some false
  else some true

/-- Drops the candidate, unless it is required. -/
def dropCandidate (s : Lexer) : Option Lexer :=
  if s.candidate.any (·.required) then none else some { s with candidate := none }

/-- Takes the node that starts here for a candidate, if a key may start here. -/
def saveCandidate (s : Lexer) : Option Lexer :=
  if s.keyAllowed then do
    let required := !s.inFlow && s.indents.head? == some s.cursor.column
    let k : KeyCandidate := ⟨required, s.taken + s.queue.length, s.cursor.index, s.cursor.line,
      s.cursor.column⟩
    return { ← s.dropCandidate with candidate := some k }
  else some s

/-- Opens a block at a column that lies deeper than the open ones. Its token comes before the one
with the given number, or last. -/
def openBlock (s : Lexer) (column : Nat) (number : Option Nat) (t : Token) : Lexer :=
  if s.inFlow || s.indents.head?.any (column ≤ ·) then s
  else
    let s := match number with
      | some n => s.insert n t
      | none => s.push t
    { s with indents := column :: s.indents }

/-- Closes the blocks that lie deeper than a column; without one, all of them. -/
def closeBlocks (s : Lexer) (column : Option Nat) : Lexer :=
  if s.inFlow then s
  else
    let deeper := s.indents.takeWhile fun i => column.all (· < i)
    { s with
      indents := s.indents.drop deeper.length
      queue := s.queue ++ deeper.map fun _ => .blockEnd }

/-- How far the blank lines before another comment may reach. -/
def maxCommentGap : Nat := 512

/-- The length of a comment together with the comments on lines after it. -/
def commentLength : (steps : Nat) → List Char → Nat
  | 0, _ => 0
  | n + 1, t =>
    let line := t.takeWhile fun c => !isBreak c
    let rest := t.drop line.length
    let gap := rest.takeWhile fun c => isBlank c || c == '\n' || c == '\r'
    let next := rest.drop gap.length
    if next.head? == some '#' && gap.length < maxCommentGap then
      line.length + gap.length + commentLength n next
    else line.length

def byteOrderMark : Char := Char.ofNat 0xFEFF

/-- Passes over white space and comments. A line end outside flows allows a key; where one may
start, a tab is no white space. -/
def skipGap : (steps : Nat) → Lexer → Lexer
  | 0, s => s
  | n + 1, s =>
    let s := if s.cursor.column = 0 && s.cursor.rest.head? == some byteOrderMark then s.pass 1 else s
    let tabs := s.inFlow || !s.keyAllowed
    let s := { s with cursor := s.cursor.passWhile fun c => c == ' ' || (tabs && c == '\t') }
    let s := if s.cursor.rest.head? == some '#' then
      s.pass (commentLength (s.cursor.rest.length + 1) s.cursor.rest) else s
    match breakLength s.cursor.rest with
    | 0 => s
    | k => skipGap n { s.pass k with keyAllowed := s.keyAllowed || !s.inFlow }

/-- Passes over a comment on the line of the last token. -/
def skipLineComment (s : Lexer) : Lexer :=
  let blanks := s.cursor.rest.takeWhile isBlank
  let next := s.cursor.rest.drop blanks.length
  if !s.cursor.lineStart && next.head? == some '#' && blanks.length < maxCommentGap then
    s.pass (blanks.length + (next.takeWhile fun c => !isBreak c).length)
  else s

def mark (s : Lexer) (t : Token) : Lexer := (s.pass 1).push t

def flowStart (s : Lexer) (t : Token) : Option Lexer := do
  let s ← s.saveCandidate
  return { s with candidate := none, outer := s.candidate :: s.outer, keyAllowed := true }.mark t

def flowEnd (s : Lexer) (t : Token) : Option Lexer := do
  let s ← s.dropCandidate
  let s := match s.outer with
    | k :: outer => { s with candidate := k, outer := outer }
    | [] => s
  return { s with keyAllowed := false }.mark t

def separator (s : Lexer) : Option Lexer := do
  let s ← s.dropCandidate
  return { s with keyAllowed := true }.mark .separator

def item (s : Lexer) : Option Lexer := do
  if !s.inFlow && !s.keyAllowed then none
  let s ← (s.openBlock s.cursor.column none .blockListStart).dropCandidate
  return { s with keyAllowed := true }.mark .item

def explicitKey (s : Lexer) : Option Lexer := do
  if !s.inFlow && !s.keyAllowed then none
  let s ← (s.openBlock s.cursor.column none .blockMapStart).dropCandidate
  return { s with keyAllowed := !s.inFlow }.mark .key

/-- The colon before a value. If there is a candidate, it was the key. -/
def value (s : Lexer) : Option Lexer := do
  let found ← match s.candidate with
    | some k => (s.open? k).map fun isOpen => if isOpen then some k else none
    | none => some none
  match found with
  | some k =>
    let s := (s.insert k.number .key).openBlock k.column (some k.number) .blockMapStart
    return { s with candidate := none, keyAllowed := false }.mark .value
  | none =>
    if !s.inFlow && !s.keyAllowed then none
    let s := s.openBlock s.cursor.column none .blockMapStart
    return { s with keyAllowed := !s.inFlow }.mark .value

/-- A node of which `rest` follows; it may be a key, and none may follow it. -/
def leaf (s : Lexer) (t : Token) (rest : List Char) : Option Lexer := do
  let s ← s.saveCandidate
  let s := { s with keyAllowed := false }
  return (s.pass (s.cursor.rest.length - rest.length)).push t

def name? (t : List Char) : Option (Text × List Char) :=
  let name := t.takeWhile isWordPart
  let rest := t.drop name.length
  let ended := atGap rest || rest.head?.any fun c =>
    c == '?' || c == ':' || c == ',' || c == ']' || c == Scalar.closeBrace || c == '%' || c == '@' ||
      c == Char.ofNat 96
  if !name.isEmpty && ended then some (bytes name, rest) else none

def isUriPart (c : Char) : Bool :=
  isWordPart c || c == ';' || c == '/' || c == '?' || c == ':' || c == '@' || c == '&' || c == '=' ||
    c == '+' || c == '$' || c == ',' || c == '.' || c == '!' || c == '~' || c == '*' ||
    c == Scalar.singleQuote || c == '(' || c == ')' || c == '[' || c == ']' || c == '%'

/-- A byte written as two hexadecimal digits after a percent sign, and what follows it. -/
def uriByte? : List Char → Option (UInt8 × List Char)
  | '%' :: a :: b :: t => do
    let high ← Scalar.hexDigit? a
    let low ← Scalar.hexDigit? b
    return ((high * 16 + low).toUInt8, t)
  | _ => none

/-- How many more bytes a code point has that starts with this one. -/
def trailing? (b : UInt8) : Option Nat :=
  if b < 0x80 then some 0
  else if b &&& 0xE0 == 0xC0 then some 1
  else if b &&& 0xF0 == 0xE0 then some 2
  else if b &&& 0xF8 == 0xF0 then some 3
  else none

/-- The bytes of a part of a tag, of which `due` still belong to the code point before. -/
def uriBytes? : (steps due : Nat) → List Char → Option Text
  | _, 0, [] => some []
  | n + 1, 0, c :: t =>
    if c == '%' then do
      let (b, t) ← uriByte? (c :: t)
      return b :: (← uriBytes? n (← trailing? b) t)
    else (uriBytes? n 0 t).map (Rune.encode c.toNat ++ ·)
  | n + 1, due + 1, t => do
    let (b, t) ← uriByte? t
    if b &&& 0xC0 != 0x80 then none
    return b :: (← uriBytes? n due t)
  | 0, _, _ => none

/-- A part of a tag and what follows it. -/
def uri? (t : List Char) : Option (Text × List Char) := do
  let part := t.takeWhile isUriPart
  return (← uriBytes? (part.length + 1) 0 part, t.drop part.length)

/-- What a tag starts with: an exclamation mark, and perhaps a name and another one. -/
def handle (t : List Char) : List Char :=
  let name := (t.drop 1).takeWhile isWordPart
  t.take 1 ++ name ++ ((t.drop (1 + name.length)).take 1).filter (· == '!')

/-- A tag: its handle, the rest of it, and what follows. -/
def tag? (t : List Char) : Option (Token × List Char) := do
  let (token, rest) ← if (t.drop 1).head? == some '<' then do
      let (uri, rest) ← uri? (t.drop 2)
      if uri.isEmpty || rest.head? != some '>' then none
      some (Token.tag [] uri, rest.drop 1)
    else do
      let start := handle t
      if 1 < start.length && start.getLast? == some '!' then
        let (uri, rest) ← uri? (t.drop start.length)
        if uri.isEmpty then none
        some (Token.tag (bytes start) uri, rest)
      else
        let (uri, rest) ← uri? (t.drop 1)
        some (if uri.isEmpty then .tag [] (utf8 "!") else .tag (utf8 "!") uri, rest)
  if atGap rest then some (token, rest) else none

def versionNumber? (t : List Char) : Option (Nat × List Char) :=
  let ds := t.takeWhile Char.isDigit
  if ds.isEmpty || 2 < ds.length then none
  else some (ds.foldl (fun n c => n * 10 + (c.toNat - 48)) 0, t.drop ds.length)

/-- A directive after its percent sign, and what follows it on its line. -/
def directive? (t : List Char) : Option (Token × List Char) := do
  let name := t.takeWhile isWordPart
  let rest := t.drop name.length
  if !atGap rest then none
  let rest := rest.dropWhile isBlank
  if bytes name = utf8 "YAML" then
    let (major, rest) ← versionNumber? rest
    if rest.head? != some '.' then none
    let (minor, rest) ← versionNumber? (rest.drop 1)
    some (.version major minor, rest)
  else if bytes name = utf8 "TAG" then
    if rest.head? != some '!' then none
    let start := handle rest
    if start.getLast? != some '!' then none
    let rest := rest.drop start.length
    if !rest.head?.any isBlank then none
    let (uri, rest) ← uri? (rest.dropWhile isBlank)
    if uri.isEmpty || !atGap rest then none
    some (.tagDirective (bytes start) uri, rest)
  else none

/-- A directive takes its line; only a comment may follow it there. -/
def directive (s : Lexer) : Option Lexer := do
  let s ← (s.closeBlocks none).dropCandidate
  let (token, rest) ← directive? (s.cursor.rest.drop 1)
  let rest := rest.dropWhile isBlank
  let rest := if rest.head? == some '#' then rest.dropWhile fun c => !isBreak c else rest
  if !rest.head?.all isBreak then none
  let rest := rest.drop (breakLength rest)
  let s := { s with keyAllowed := false }
  return (s.pass (s.cursor.rest.length - rest.length)).push token

/-- A line that separates documents. -/
def documentMark (s : Lexer) (t : Token) : Option Lexer := do
  let s ← (s.closeBlocks none).dropCandidate
  return ({ s with keyAllowed := false }.pass 3).push t

/-- The end of the text starts a new line, so no candidate lasts. -/
def streamEnd (s : Lexer) : Option Lexer := do
  let c := s.cursor
  let c := if c.column = 0 then c else { c with column := 0, line := c.line + 1 }
  let s ← ({ s with cursor := c }.closeBlocks none).dropCandidate
  return { s with keyAllowed := false }.push .streamEnd

/-- A block of lines cannot be a key; one may follow it. -/
def blockScalar (s : Lexer) (folded : Bool) : Option Lexer := do
  let s ← s.dropCandidate
  let (text, rest) ← Scalar.block folded s.indents.head? (s.cursor.rest.drop 1)
  let s := { s with keyAllowed := true }
  return (s.pass (s.cursor.rest.length - rest.length)).push (.scalar false (bytes text))

/-- A plain scalar. If it leaves off behind a line end, a key may follow. -/
def plainScalar (s : Lexer) : Option Lexer := do
  let t := s.cursor.rest
  let (text, rest, crossed) ← Scalar.plain s.inFlow s.inner (t.length + 1) [] t
  let s ← s.leaf (.scalar true (bytes text)) rest
  return { s with keyAllowed := s.keyAllowed || crossed }

/-- Characters with a meaning of their own at the start of a node. -/
def isIndicator (c : Char) : Bool :=
  c == '-' || c == '?' || c == ':' || c == ',' || c == '[' || c == ']' || c == Scalar.openBrace ||
    c == Scalar.closeBrace || c == '#' || c == '&' || c == '*' || c == '!' || c == '|' || c == '>' ||
    c == Scalar.singleQuote || c == '"' || c == '%' || c == '@' || c == Char.ofNat 96

/-- Whether a plain scalar starts with `c` before `t`. -/
def startsPlain (s : Lexer) (c : Char) (t : List Char) : Bool :=
  !(isGap c || isIndicator c) || (c == '-' && !t.head?.any isBlank) ||
    (!s.inFlow && (c == '?' || c == ':') && !atGap t)

def token (s : Lexer) (c : Char) (t : List Char) : Option Lexer :=
  let steps := t.length + 1
  if c == '[' then s.flowStart .flowListStart
  else if c == Scalar.openBrace then s.flowStart .flowMapStart
  else if c == ']' then s.flowEnd .flowListEnd
  else if c == Scalar.closeBrace then s.flowEnd .flowMapEnd
  else if c == ',' then s.separator
  else if c == '-' && atGap t then s.item
  else if c == '?' && (s.inFlow || atGap t) then s.explicitKey
  else if c == ':' && (s.inFlow || atGap t) then s.value
  else if c == '*' then (name? t).bind fun (name, rest) => s.leaf (.alias name) rest
  else if c == '&' then (name? t).bind fun (name, rest) => s.leaf (.anchor name) rest
  else if c == '!' then (tag? (c :: t)).bind fun (tag, rest) => s.leaf tag rest
  else if c == '|' && !s.inFlow then s.blockScalar false
  else if c == '>' && !s.inFlow then s.blockScalar true
  else if c == Scalar.singleQuote then
    (Scalar.singleQuoted steps t).bind fun (text, rest) => s.leaf (.scalar false (bytes text)) rest
  else if c == '"' then
    (Scalar.doubleQuoted steps t).bind fun (text, rest) => s.leaf (.scalar false (bytes text)) rest
  else if s.startsPlain c t then s.plainScalar
  else none

/-- Finds the next token, and those that it brings about. -/
def fetch (s : Lexer) : Option Lexer :=
  let s := skipGap (s.cursor.rest.length + 1) s
  let s := s.closeBlocks (some s.cursor.column)
  match s.cursor.rest with
  | [] => s.streamEnd
  | c :: t =>
    if s.cursor.column = 0 && c == '%' then s.directive
    else if s.cursor.column = 0 && isDocumentMark (c :: t) then
      s.documentMark (if c == '-' then .documentStart else .documentEnd)
    else (s.token c t).map fun s =>
      if s.queue.getLast? == some .item then s else s.skipLineComment

def ready? (s : Lexer) : Option Bool :=
  if s.queue.length < 3 then some false
  else match (s.candidate :: s.outer).findSome? (·.filter (·.number == s.taken)) with
  | some k => (s.open? k).map (!·)
  | none => some true

/-- The lexer with a token that can be taken. -/
def prepare : (steps : Nat) → Lexer → Option Lexer
  | 0, _ => none
  | n + 1, s => do
    if ← s.ready? then some s else prepare n (← s.fetch)

/-- The next token, which stays in the queue. Each search for a token passes a character or is at
the end of the text. -/
def peek (s : Lexer) : Option (Token × Lexer) := do
  let s ← if ← s.ready? then some s else prepare (s.cursor.rest.length + 4) s
  return (← s.queue.head?, s)

def take (s : Lexer) : Lexer := { s with queue := s.queue.tail, taken := s.taken + 1 }

end Lexer

end CellScript.Yaml
