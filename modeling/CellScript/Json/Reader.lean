import CellScript.Json
import CellScript.Json.Window
import CellScript.Real.Reading
import CellScript.Text.Units

/-! JSON from text. Only the first value of a text is read; a comma or colon may stand before it. A
number counts as one if its text, taken up to the first byte that no number holds, denotes a
double. -/
namespace CellScript.Json

/-- A step of the reader: it moves the window or fails. -/
abbrev Reading := StateT Window Option

namespace Reading

def window : Reading Window := StateT.get

def peek : Reading UInt8 := return (← window).current

def advance : Reading Unit := modify Window.advance

def refill : Reading Bool := do
  match (← window).refill? with
  | some w =>
    set w
    return true
  | none => return false

def isSpace (b : UInt8) : Bool := b == 32 || b == 10 || b == 9 || b == 13

/-- The first byte after blanks; zero at the end of the text. -/
def afterSpace : (steps : Nat) → Reading UInt8
  | 0 => failure
  | n + 1 => do
    let b ← peek
    if isSpace b then
      advance
      afterSpace n
    else if b = 0 then
      if ← refill then afterSpace n else return 0
    else return b

/-- Passes over a byte that must come after blanks. -/
def expect (n : Nat) (b : UInt8) : Reading Unit := do
  if (← afterSpace n) = b then advance else failure

/-- The rest of a word whose first letter is at the cursor. In place of a letter that has not
arrived any byte will do. -/
def word : Text → Reading Unit
  | [] => advance
  | c :: cs => do
    advance
    let b ← peek
    if b = c then word cs
    else if b = 0 then
      if ← refill then word cs else failure
    else failure

/-- The number that hexadecimal digits denote; any other byte counts as the digit zero. -/
def hexNumber (ds : Text) : Nat := ds.foldl (fun n b => n * 16 + (Real.hexDigit? b).getD 0) 0

def escaped? (b : UInt8) : Option UInt8 :=
  if b = byte '"' || b = 92 || b = byte '/' then some b
  else if b = byte 'b' then some 8
  else if b = byte 'f' then some 12
  else if b = byte 'n' then some 10
  else if b = byte 'r' then some 13
  else if b = byte 't' then some 9
  else none

/-- Refills until more than `count` bytes have arrived. -/
def arrived (count : Nat) : (steps : Nat) → Reading Bool
  | 0 => return false
  | n + 1 => do
    if count < (← window).live then return true
    else if ← refill then arrived count n
    else return false

/-- Takes the four bytes after the letter at the cursor for hexadecimal digits, whatever they are;
with a second escape they may form a pair of surrogates. The window goes on to hold what the
escape stands for in place of its backslash and these bytes. -/
def codePoint (n : Nat) : Reading Text := do
  let finish (code length : Nat) : Reading Text := do
    let s := Rune.encode code
    modify fun w => { w with passed := w.passed - 1 }.pass length s.length
    return s
  if ← arrived 5 n then
    let unit := hexNumber (((← window).ahead.drop 1).take 4)
    if 0xD800 ≤ unit && unit < 0xE000 then
      if ← arrived 11 n then
        let next := (← window).ahead.drop 5
        if next.take 2 = utf8 "\\u" then
          match Units.pair? unit (hexNumber ((next.drop 2).take 4)) with
          | some code => finish code 11
          | none => finish unit 5
        else finish unit 5
      else finish unit 5
    else finish unit 5
  else failure

def escapeLetter : (steps : Nat) → Reading UInt8
  | 0 => failure
  | n + 1 => do
    let b ← peek
    if b ≠ 0 then return b
    else if ← refill then escapeLetter n
    else failure

/-- An escape, whose backslash is at the cursor. -/
def escape (n : Nat) : Reading Text := do
  advance
  let b ← escapeLetter n
  if b = byte 'u' then codePoint n
  else match escaped? b with
  | some c =>
    modify fun w => w.pass 1 0
    return [c]
  | none => failure

/-- A string, after its opening quote. -/
def quoted : (steps : Nat) → Reading Text
  | 0 => failure
  | n + 1 => do
    let b ← peek
    if b = byte '"' then
      advance
      return []
    else if b = 92 then
      let s ← escape n
      return s ++ (← quoted n)
    else if b = 0 then
      if ← refill then quoted n else failure
    else
      advance
      return b :: (← quoted n)

def isNumberByte (b : UInt8) : Bool :=
  Text.isDigit b || b == byte '.' || b == byte 'e' || b == byte 'E' || b == byte '+' ||
    b == byte '-'

/-- The bytes that a number may hold, from the cursor on. -/
def numberText : (steps : Nat) → Reading Text
  | 0 => failure
  | n + 1 => do
    let b ← peek
    if isNumberByte b then
      advance
      return b :: (← numberText n)
    else if b = 0 then
      if ← refill then numberText n else return []
    else return []

/-- The name of a member. The word `null` is an empty one. -/
def name (n : Nat) : Reading Text := do
  let b ← afterSpace n
  if b = byte '"' then
    advance
    let s ← quoted n
    modify Window.release
    return s
  else if b = byte 'n' then
    word (utf8 "ull")
    return []
  else failure

mutual

/-- A value, after blanks; `depth` more brackets may open. -/
def value : (steps depth : Nat) → Reading Json
  | 0, _ => failure
  | n + 1, depth => do
    let b ← afterSpace n
    if b = byte '"' then
      advance
      return string (← quoted n)
    else if b = byte '[' then
      match depth with
      | 0 => failure
      | depth + 1 =>
        advance
        if (← afterSpace n) = byte ']' then
          advance
          return array []
        else return array (← items n depth)
    else if b = 0x7B then
      match depth with
      | 0 => failure
      | depth + 1 =>
        advance
        if (← afterSpace n) = 0x7D then
          advance
          return object []
        else return object (← members n depth)
    else if b = byte '-' || Text.isDigit b then
      advance
      let text := b :: (← numberText n)
      if (Real.read? text).isSome then
        modify Window.release
        return number text
      else failure
    else if b = byte 't' then
      word (utf8 "rue")
      return bool true
    else if b = byte 'f' then
      word (utf8 "alse")
      return bool false
    else if b = byte 'n' then
      word (utf8 "ull")
      return null
    else failure

/-- Array items up to the closing bracket, at least one. -/
def items : (steps depth : Nat) → Reading (List Json)
  | 0, _ => failure
  | n + 1, depth => do
    let item ← value n depth
    let b ← afterSpace n
    if b = byte ']' then
      advance
      return [item]
    else if b = byte ',' then
      advance
      return item :: (← items n depth)
    else failure

/-- Object members up to the closing brace, at least one. -/
def members : (steps depth : Nat) → Reading (List (Text × Json))
  | 0, _ => failure
  | n + 1, depth => do
    let key ← name n
    expect n (byte ':')
    let v ← value n depth
    let b ← afterSpace n
    if b = 0x7D then
      advance
      return [(key, v)]
    else if b = byte ',' then
      advance
      return (key, v) :: (← members n depth)
    else failure

end

/-- How many brackets may be open at once. -/
def maxDepth : Nat := 10000

def first (n : Nat) : Reading Json := do
  let b ← afterSpace n
  if b = byte ',' || b = byte ':' then advance
  value n maxDepth

end Reading

/-- A bound for the steps through a text. A refill shows at most a window of twice the length, and
there are no more refills than bytes. -/
def stepBound (t : Text) : Nat := (t.length + 2) * (4 * t.length + 4 * Window.startSize)

/-- The first value of a text. -/
def read? (t : Text) : Option Json :=
  ((Reading.first (stepBound t)).run (Window.ofText t)).map (·.1)

/-- Whether a text ends before a value starts. -/
def isVacant (t : Text) : Bool :=
  ((Reading.afterSpace (stepBound t)).run (Window.ofText t)).any (·.1 == 0)

end CellScript.Json
