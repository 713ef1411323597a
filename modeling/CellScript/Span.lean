import CellScript.Text

/-! Places in a source: lines and byte columns counted from one. A node that came from no source
carries the zero span. -/
namespace CellScript

structure Position where
  line : Int
  column : Int
deriving DecidableEq, Repr, Inhabited

namespace Position

/-- The first byte of a source. -/
def origin : Position := ⟨1, 1⟩

/-- A newline starts the next line; every other byte is one column wide. -/
def next (p : Position) (b : UInt8) : Position :=
  if b = 10 then ⟨p.line + 1, 1⟩ else ⟨p.line, p.column + 1⟩

def after (p : Position) (t : Text) : Position := t.foldl next p

@[simp] theorem after_nil (p : Position) : p.after [] = p := rfl

@[simp] theorem after_append (p : Position) (s t : Text) : p.after (s ++ t) = (p.after s).after t := by
  simp [after]

def text (p : Position) : Text := Text.ofInt p.line ++ [byte ':'] ++ Text.ofInt p.column

end Position

structure Span where
  start : Position
  stop : Position
deriving DecidableEq, Repr, Inhabited

namespace Span

/-- The span of a node without a source. -/
def zero : Span := ⟨⟨0, 0⟩, ⟨0, 0⟩⟩

def isZero (s : Span) : Bool := s == zero

def upTo (a b : Span) : Span := ⟨a.start, b.stop⟩

/-- From the start of `a` to the end of `b`, where a zero span gives way to the other. -/
def join (a b : Span) : Span := if a.isZero then b else if b.isZero then a else a.upTo b

/-- The start as messages show it; nothing for the zero span. -/
def text (s : Span) : Text := if s.isZero then [] else s.start.text

end Span

end CellScript
