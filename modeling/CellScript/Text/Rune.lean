import CellScript.Text

/-! Code points inside byte text. A byte that starts no well-formed UTF-8 sequence stands for
itself as a stray byte, so every text splits into runes and nothing is lost. -/
namespace CellScript

/-- One step through a text: a code point with its bytes, or a byte outside UTF-8. -/
inductive Rune where
  | point (code : Nat)
  | stray (b : UInt8)
deriving DecidableEq, Repr

namespace Rune

/-- The replacement character, which stands for stray bytes wherever a code point is needed. -/
def replacement : Nat := 0xFFFD

def code : Rune → Nat
  | point n => n
  | stray _ => replacement

/-- Surrogates and numbers beyond the last plane are no code points. -/
def isScalar (n : Nat) : Bool := n < 0xD800 || (0xE000 ≤ n && n < 0x110000)

/-- UTF-8 of a code point; anything else is written as the replacement character. -/
def encode (n : Nat) : Text :=
  if n < 0x80 then [n.toUInt8]
  else if n < 0x800 then [(0xC0 + n / 64).toUInt8, (0x80 + n % 64).toUInt8]
  else if !isScalar n then [0xEF, 0xBF, 0xBD]
  else if n < 0x10000 then
    [(0xE0 + n / 4096).toUInt8, (0x80 + n / 64 % 64).toUInt8, (0x80 + n % 64).toUInt8]
  else
    [(0xF0 + n / 262144).toUInt8, (0x80 + n / 4096 % 64).toUInt8, (0x80 + n / 64 % 64).toUInt8,
      (0x80 + n % 64).toUInt8]

def isContinuation (b : UInt8) : Bool := 0x80 ≤ b && b ≤ 0xBF

/-- The first rune of `b :: t` and the number of bytes it takes from `t`. Overlong forms,
surrogates and numbers beyond the last plane are refused: then the first byte alone is stray. -/
def first (b : UInt8) (t : Text) : Rune × Nat :=
  let part (c : UInt8) : Nat := c.toNat - 0x80
  if b < 0x80 then (point b.toNat, 0)
  else if b < 0xE0 then
    match t with
    | c :: _ =>
      if 0xC2 ≤ b && isContinuation c then (point ((b.toNat - 0xC0) * 64 + part c), 1)
      else (stray b, 0)
    | _ => (stray b, 0)
  else if b < 0xF0 then
    match t with
    | c :: d :: _ =>
      let n := (b.toNat - 0xE0) * 4096 + part c * 64 + part d
      if isContinuation c && isContinuation d && 0x800 ≤ n && isScalar n then (point n, 2)
      else (stray b, 0)
    | _ => (stray b, 0)
  else
    match t with
    | c :: d :: e :: _ =>
      let n := (b.toNat - 0xF0) * 262144 + part c * 4096 + part d * 64 + part e
      if isContinuation c && isContinuation d && isContinuation e && 0x10000 ≤ n && isScalar n then
        (point n, 3)
      else (stray b, 0)
    | _ => (stray b, 0)

end Rune

namespace Text

/-- A step through a text leaves less of it. -/
theorem length_drop_lt (b : UInt8) (t : Text) (n : Nat) :
    (t.drop n).length < (b :: t).length := by
  rw [List.length_drop, List.length_cons]
  omega

def runes : Text → List Rune
  | [] => []
  | b :: t => (Rune.first b t).1 :: runes (t.drop (Rune.first b t).2)
termination_by t => t.length
decreasing_by exact length_drop_lt ..

def isUtf8 (t : Text) : Bool :=
  t.runes.all fun | .point _ => true | .stray _ => false

end Text

end CellScript
