import CellScript.Json.Reader
import CellScript.Json.Writer

/-! How JSON values become texts, and texts values. Trees are written and read through any codec; which
one, and where it stops, is no concern of theirs. -/
namespace CellScript.Json

structure Codec where
  write : Json → Text
  /-- The first value of a text, if there is one. -/
  read? : Text → Option Json

/-- Documents for texts, read piece by piece. -/
def Codec.stream : Codec := ⟨document, Json.read?⟩

end CellScript.Json
