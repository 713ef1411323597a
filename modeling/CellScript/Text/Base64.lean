import CellScript.Text

/-! Bytes written with 64 characters: four characters stand for three bytes, and the last group is
filled up with equals signs. -/
namespace CellScript.Base64

/-- The six bits that a character stands for. -/
def value? (b : UInt8) : Option Nat :=
  let n := b.toNat
  if byte 'A' ≤ b && b ≤ byte 'Z' then some (n - 65)
  else if byte 'a' ≤ b && b ≤ byte 'z' then some (n - 71)
  else if Text.isDigit b then some (n + 4)
  else if b = byte '+' then some 62
  else if b = byte '/' then some 63
  else none

/-- The bytes of groups of four characters. -/
def groups? : Text → Option Text
  | [] => some []
  | a :: b :: c :: d :: t => do
    let high := (← value? a) * 4096 + (← value? b) * 64
    let first := (high / 1024).toUInt8
    if d = byte '=' then
      if !t.isEmpty then none
      else if c = byte '=' then some [first]
      else
        let bits := high + (← value? c)
        return [first, (bits / 4).toUInt8]
    else
      let bits := (high + (← value? c)) * 64 + (← value? d)
      return first :: (bits / 256).toUInt8 :: bits.toUInt8 :: (← groups? t)
  | _ => none

/-- The bytes that a text stands for; line ends in it do not count. -/
def decode? (t : Text) : Option Text := groups? (t.filter fun b => b != 10 && b != 13)

end CellScript.Base64
