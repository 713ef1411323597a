import CellScript.Text.Rune

/-! Code points from 16-bit units. A code point beyond the first plane is a pair of surrogates, a
high one and a low one. -/
namespace CellScript.Units

def isHigh (u : Nat) : Bool := 0xD800 ≤ u && u < 0xDC00

def isLow (u : Nat) : Bool := 0xDC00 ≤ u && u < 0xE000

/-- The code point of a pair of surrogates. -/
def pair? (high low : Nat) : Option Nat :=
  if isHigh high && isLow low then
    some ((high - 0xD800) * 1024 + (low - 0xDC00) + 0x10000)
  else none

/-- The code points of some units; surrogates must come in pairs. -/
def codes? : List Nat → Option (List Nat)
  | [] => some []
  | u :: us =>
    if isLow u then none
    else if isHigh u then
      match us with
      | [] => none
      | v :: us => do
        let code ← pair? u v
        return code :: (← codes? us)
    else (codes? us).map (u :: ·)

/-- The units of a text in which the more significant byte comes first, or last. -/
def ofBytes? (significantFirst : Bool) : Text → Option (List Nat)
  | [] => some []
  | [_] => none
  | a :: b :: t =>
    let unit := if significantFirst then a.toNat * 256 + b.toNat else b.toNat * 256 + a.toNat
    (ofBytes? significantFirst t).map (unit :: ·)

end CellScript.Units
