import CellScript.Json
import CellScript.Text.Quoted

/-! Indented JSON text: two blanks a level, members and items on lines of their own. -/
namespace CellScript.Json

/-- One code point inside a string. Markup characters and the two line separators are escaped,
so that the text can stand inside other documents. -/
def escapePoint (n : Nat) : Text :=
  if n = 34 || n = 92 then [92, n.toUInt8]
  else if n = 10 then utf8 "\\n"
  else if n = 13 then utf8 "\\r"
  else if n = 9 then utf8 "\\t"
  else if n < 32 || n = 60 || n = 62 || n = 38 || n = 0x2028 || n = 0x2029 then
    utf8 "\\u" ++ Text.hex 4 n
  else Rune.encode n

def escapeRune : Rune → Text
  | .point n => escapePoint n
  | .stray _ => utf8 "\\ufffd"

def stringText (t : Text) : Text := byte '"' :: t.runes.flatMap escapeRune ++ [byte '"']

def newline (depth : Nat) : Text := 10 :: List.replicate (2 * depth) 32

mutual

def write (depth : Nat) : Json → Text
  | null => utf8 "null"
  | bool b => utf8 (if b then "true" else "false")
  | number text => text
  | string text => stringText text
  | array [] => utf8 "[]"
  | array (item :: items) =>
    byte '[' :: newline (depth + 1) ++ write (depth + 1) item ++ writeItems depth items
  | object [] => utf8 "\x7b\x7d"
  | object ((name, value) :: members) =>
    0x7B :: newline (depth + 1) ++ stringText name ++ utf8 ": " ++ write (depth + 1) value ++
      writeMembers depth members

/-- Further items and the closing bracket. -/
def writeItems (depth : Nat) : List Json → Text
  | [] => newline depth ++ [byte ']']
  | item :: items =>
    byte ',' :: newline (depth + 1) ++ write (depth + 1) item ++ writeItems depth items

/-- Further members and the closing brace. -/
def writeMembers (depth : Nat) : List (Text × Json) → Text
  | [] => newline depth ++ [0x7D]
  | (name, value) :: members =>
    byte ',' :: newline (depth + 1) ++ stringText name ++ utf8 ": " ++ write (depth + 1) value ++
      writeMembers depth members

end

/-- A document: the value and a final newline. -/
def document (j : Json) : Text := write 0 j ++ [10]

end CellScript.Json
