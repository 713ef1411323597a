/-! Doubles as integers: a finite double is `± mantissa · 2 ^ exponent`, and the double nearest to
a quotient is found in exact integer arithmetic. -/
namespace CellScript.Real

/-- A finite double without its sign. The mantissa is below `2 ^ 53`. -/
structure Magnitude where
  mantissa : Nat
  exponent : Int
deriving DecidableEq, Repr

/-- What the bits of a double stand for. -/
inductive Decoded where
  | nan
  | infinite (negative : Bool)
  | finite (negative : Bool) (magnitude : Magnitude)
deriving DecidableEq, Repr

def decodeBits (bits : Nat) : Decoded :=
  let negative := Nat.pow 2 63 ≤ bits % Nat.pow 2 64
  let field : Nat := bits / Nat.pow 2 52 % Nat.pow 2 11
  let fraction : Nat := bits % Nat.pow 2 52
  if field = 2047 then
    if fraction = 0 then .infinite negative else .nan
  else if field = 0 then .finite negative ⟨fraction, -1074⟩
  else .finite negative ⟨Nat.pow 2 52 + fraction, (field : Int) - 1075⟩

def decode (x : Float) : Decoded := decodeBits x.toBits.toNat

/-- A quotient rounded to the nearest integer, a half going to the even neighbour. -/
def divideToEven (num den : Nat) : Nat :=
  let q := num / den
  let twice := 2 * (num % den)
  if den < twice || (twice = den && q % 2 = 1) then q + 1 else q

/-- Numerator and denominator of `num / den / 2 ^ e`. -/
def scaleDown (num den : Nat) (e : Int) : Nat × Nat :=
  if 0 ≤ e then (num, den * Nat.pow 2 e.toNat) else (num * Nat.pow 2 (-e).toNat, den)

/-- The bits of the double nearest to `num / den`, or nothing when that is beyond the largest
one. A mantissa that rounds up to the next power of two carries into the exponent field. -/
def nearestBits (num den : Nat) : Option Nat :=
  if num = 0 then some 0
  else
    let guess : Int := (num.log2 : Int) - den.log2 - 52
    let (n, d) := scaleDown num den guess
    let e := max (-1074) (if n / d < Nat.pow 2 52 then guess - 1 else guess)
    let (n, d) := scaleDown num den e
    let bits := (e + 1074).toNat * Nat.pow 2 52 + divideToEven n d
    if bits < 2047 * Nat.pow 2 52 then some bits else none

def nearest (negative : Bool) (num den : Nat) : Option Float :=
  (nearestBits num den).map fun bits =>
    Float.ofBits (if negative then bits + Nat.pow 2 63 else bits).toUInt64

end CellScript.Real
