import CellScript.Text

/-! Decimal texts of 64-bit integers. -/
namespace CellScript.Integer

/-- Why a text denotes no 64-bit integer; a number out of range carries the nearest one. -/
inductive Failure where
  | malformed
  | outOfRange (nearest : Int64)
deriving DecidableEq, Repr

/-- Reads digits to the end of the text. The scan stops with `none` as soon as the number needs
more than 64 bits, whatever follows. -/
def digits? (n : Nat) : Text → Except Unit (Option Nat)
  | [] => .ok (some n)
  | b :: t =>
    if Text.isDigit b then
      let m := n * 10 + (b.toNat - 48)
      if m < Nat.pow 2 64 then digits? m t else .ok none
    else .error ()

/-- The integer that a whole text denotes: an optional sign and at least one digit. -/
def read (t : Text) : Except Failure Int64 :=
  let (negative, body) := match t with
    | s :: r => if s = byte '-' then (true, r) else if s = byte '+' then (false, r) else (false, t)
    | [] => (false, t)
  match body, digits? 0 body with
  | [], _ | _, .error () => .error .malformed
  | _, .ok n =>
    let n := n.getD (Nat.pow 2 64)
    if negative then
      if n ≤ Nat.pow 2 63 then .ok (Int64.ofInt (-n)) else .error (.outOfRange Int64.minValue)
    else if n < Nat.pow 2 63 then .ok (Int64.ofInt n)
    else .error (.outOfRange Int64.maxValue)

def text (n : Int64) : Text := Text.ofInt n.toInt

end CellScript.Integer
