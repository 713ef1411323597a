import CellScript.Span
import CellScript.Text.Blank

/-! Diagnostics: what is reported to the user about a program, with the place it is about and the
call sites that led there. -/
namespace CellScript

inductive Severity where
  | error
  | warning
deriving DecidableEq, Repr

namespace Severity

def text : Severity → Text
  | error => utf8 "error"
  | warning => utf8 "warning"

end Severity

/-- A place in a named source. A line or column that is not positive is unknown. -/
structure Location where
  path : Text
  line : Int
  column : Int
deriving DecidableEq, Repr

namespace Location

/-- The start of a span; the zero span has no line and column. -/
def ofSpan (path : Text) (s : Span) : Location := ⟨path, s.start.line, s.start.column⟩

/-- The place as text, as far as it is known. -/
def text (l : Location) : Text :=
  let path := l.path.trim
  let colon (n : Int) : Text := byte ':' :: Text.ofInt n
  if !path.isEmpty then
    if 0 < l.line then path ++ colon l.line ++ (if 0 < l.column then colon l.column else [])
    else path
  else if 0 < l.line then
    utf8 "line " ++ Text.ofInt l.line ++
      (if 0 < l.column then utf8 ", column " ++ Text.ofInt l.column else [])
  else []

end Location

structure Note where
  message : Text
  location : Location
deriving DecidableEq, Repr

structure Diagnostic where
  severity : Severity
  code : Text
  message : Text
  location : Location
  notes : List Note
deriving DecidableEq, Repr

namespace Note

def text (n : Note) : Text :=
  let place := n.location.text
  utf8 "note: " ++ (if place.isEmpty then [] else place ++ [32]) ++ n.message

end Note

namespace Diagnostic

/-- What is said after the severity: a line for the diagnostic, then one for each note. Parts that
are empty are left out. -/
def remark (d : Diagnostic) : Text :=
  let part (t : Text) : Text := if t.isEmpty then [] else t ++ utf8 ": "
  part d.location.text ++ part d.code ++ d.message.trim ++ d.notes.flatMap fun n => 10 :: n.text

def text (d : Diagnostic) : Text := d.severity.text ++ utf8 ": " ++ d.remark

/-- An error without a place in the source. -/
def plain (path message : Text) : Diagnostic := ⟨.error, [], message, ⟨path, 0, 0⟩, []⟩

def syntaxError (path message : Text) (span : Span) : Diagnostic :=
  ⟨.error, utf8 "E_SYNTAX", message, .ofSpan path span, []⟩

/-- At most this many call sites are shown. -/
def maxCallNotes : Nat := 8

/-- A failed evaluation. Call sites without a place, and those at the place of the failure itself,
are not worth a note. -/
def runtimeError (path code message : Text) (span : Span) (calls : List Span) : Diagnostic :=
  let place := Location.ofSpan path span
  let sites := (calls.map (Location.ofSpan path)).filter fun l => l.line != 0 && l != place
  ⟨.error, code, message, place,
    (sites.take maxCallNotes).map fun l => ⟨utf8 "called from here", l⟩⟩

def anyError (ds : List Diagnostic) : Bool := ds.any fun d => d.severity == .error

end Diagnostic

end CellScript
