import CellScript.Heap
import CellScript.Integer
import CellScript.Real.Format

/-! The text that printing a value writes. -/
namespace CellScript

namespace Text

/-- What a backslash and a byte stand for together, if they are an escape sequence. -/
def unescape? (b : UInt8) : Option UInt8 :=
  if b = byte 'n' then some 10
  else if b = byte 't' then some 9
  else if b = byte 'r' then some 13
  else if b = 92 || b = byte '"' || b = 39 then some b
  else none

/-- Escape sequences replaced by what they stand for; others stay as written. -/
def expandEscapes : Text → Text
  | [] => []
  | [b] => [b]
  | b :: c :: t =>
    if b = 92 then
      match unescape? c with
      | some d => d :: expandEscapes t
      | none => b :: c :: expandEscapes t
    else b :: expandEscapes (c :: t)

end Text

namespace Heap

/-- The text of a value, given the texts of the cells inside it. An array shows every key up to its
last one, absent ones as empty. -/
def renderWith (h : Heap) (cell : CellRef → Text) : Value → Text
  | .empty => utf8 "empty"
  | .int n => Integer.text n
  | .real x => Real.printed.write x
  | .bool b => utf8 (if b then "true" else "false")
  | .string t => t.expandEscapes
  | .array a =>
    let item : Option CellRef → Text
      | some c => cell c
      | none => utf8 "empty"
    byte '[' :: Text.join (utf8 ", ") ((h.array a).window.map item) ++ [byte ']']
  | .tuple t =>
    let item : Text × CellRef → Text := fun (name, c) =>
      (if name.isEmpty then [] else name ++ utf8 " := ") ++ cell c
    utf8 "\x7b" ++ Text.join (utf8 ", ") ((h.tuple t).fields.map item) ++ utf8 "\x7d"
  | .func f => utf8 "func (" ++ Text.join (utf8 ", ") f.params ++ [byte ')']

/-- The text of a cell inside the cells of `path`. A cell that lies inside itself is cut off, so
each level adds a cell to the path and there are no more levels than cells. -/
def renderCell (h : Heap) : (levels : Nat) → (path : List CellRef) → CellRef → Text
  | 0, _, _ => utf8 "..."
  | levels + 1, path, c =>
    if path.contains c then utf8 "..."
    else h.renderWith (renderCell h levels (c :: path)) (h.get c)

def render (h : Heap) (v : Value) : Text := h.renderWith (h.renderCell h.cells.size []) v

end Heap

end CellScript
