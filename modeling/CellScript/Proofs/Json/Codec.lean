import CellScript.Json.Codec

/-! What is relied on of a codec: its numbers are numerals, and what it writes it reads again up to some
depth, beyond which it reads nothing. -/
namespace CellScript.Json

open Reading (isNumberByte)

/-- A number text: a digit or a minus sign, then bytes that numbers hold. -/
def isNumeral : Text → Bool
  | [] => false
  | b :: t => (b = byte '-' || Text.isDigit b) && t.all isNumberByte

section

variable (fine : Text → Bool)

mutual

/-- Whether the numbers denote reals and the texts are fine. -/
def clean : Json → Bool
  | number text => isNumeral text && (Real.read? text).isSome
  | string text => fine text
  | array items => cleanItems items
  | object members => cleanMembers members
  | null | bool _ => true

def cleanItems : List Json → Bool
  | [] => true
  | j :: js => j.clean && cleanItems js

def cleanMembers : List (Text × Json) → Bool
  | [] => true
  | (name, j) :: js => fine name && j.clean && cleanMembers js

end

end

/-- Every number that is read is a numeral and denotes a real. -/
def Codec.Numeric (c : Codec) : Prop := ∀ t j, c.read? t = some j → j.clean fun _ => true

/-- Values with texts in UTF-8 are read as they were written, down to a limit of their depth. -/
structure Codec.Faithful (c : Codec) (limit : Nat) : Prop where
  numeric : c.Numeric
  read_write : ∀ j, j.clean Text.isUtf8 → j.depth ≤ limit → c.read? (c.write j) = some j
  too_deep : ∀ j, j.clean Text.isUtf8 → limit < j.depth → c.read? (c.write j) = none

end CellScript.Json
