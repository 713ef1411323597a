import CellScript.Real.Binary
import CellScript.Text

/-! Decimal digits of a double: a fixed number of significant ones, or the fewest that read back
as the same double. All comparisons are between exact integers. -/
namespace CellScript.Real

/-- Significant digits without trailing zeros; the value is `0.d₁d₂… · 10 ^ point`. -/
structure Decimal where
  digits : Text
  point : Int
deriving DecidableEq, Repr

namespace Decimal

/-- The decimal `c · 10 ^ e`. -/
def ofScaled (c : Nat) (e : Int) : Decimal :=
  if c = 0 then ⟨[], 0⟩
  else
    let ds := Text.ofNat c
    ⟨(ds.reverse.dropWhile (· == byte '0')).reverse, ds.length + e⟩

end Decimal

namespace Magnitude

/-- The value as a quotient. -/
def ratio (x : Magnitude) : Nat × Nat :=
  if 0 ≤ x.exponent then (x.mantissa * Nat.pow 2 x.exponent.toNat, 1)
  else (x.mantissa, Nat.pow 2 (-x.exponent).toNat)

end Magnitude

/-- Numerator and denominator of `num / den · 10 ^ e`. -/
def scaleUp (num den : Nat) (e : Int) : Nat × Nat :=
  if 0 ≤ e then (num * Nat.pow 10 e.toNat, den) else (num, den * Nat.pow 10 (-e).toNat)

/-- The least power of ten above `num / den`, found around an estimate from the bit lengths. -/
def decimalPoint (num den : Nat) : Int :=
  let estimate := ((num.log2 : Int) - den.log2) * 30103 / 100000
  let above (k : Int) : Bool :=
    let (n, d) := scaleUp num den (-k)
    n < d
  ([estimate - 1, estimate, estimate + 1].find? above).getD (estimate + 2)

/-- A double to `count` significant digits, a half going to the even digit. -/
def significant (count : Nat) (x : Magnitude) : Decimal :=
  if x.mantissa = 0 then ⟨[], 0⟩
  else
    let (num, den) := x.ratio
    let k := decimalPoint num den
    let (n, d) := scaleUp num den (count - k)
    .ofScaled (divideToEven n d) (k - count)

/-- Whether `c · 10 ^ e` lies among the reals that round to `x`: between the midpoints to its two
neighbours, ends included for an even mantissa. Just above a power of two the lower neighbour is
half as far away. -/
def readsBack (x : Magnitude) (c : Nat) (e : Int) : Bool :=
  let low := if x.mantissa = Nat.pow 2 52 && -1074 < x.exponent then 4 * x.mantissa - 1
    else 4 * x.mantissa - 2
  let high := 4 * x.mantissa + 2
  let twos := x.exponent - 2
  let grid := c * Nat.pow 10 e.toNat * Nat.pow 2 (-twos).toNat
  let scale := Nat.pow 2 twos.toNat * Nat.pow 10 (-e).toNat
  if x.mantissa % 2 = 0 then low * scale ≤ grid && grid ≤ high * scale
  else low * scale < grid && grid < high * scale

/-- The better of the two neighbours of `x` on the grid of `count` digits, if one reads back. -/
def onGrid (x : Magnitude) (num den : Nat) (k : Int) (count : Nat) : Option Decimal :=
  let (n, d) := scaleUp num den (count - k)
  let e := k - count
  let nearer := divideToEven n d
  let other := if nearer = n / d then nearer + 1 else n / d
  if readsBack x nearer e then some (.ofScaled nearer e)
  else if readsBack x other e then some (.ofScaled other e)
  else none

/-- The fewest digits that read back, and of those the ones nearest to the value. Seventeen
always suffice. -/
def shortest (x : Magnitude) : Decimal :=
  if x.mantissa = 0 then ⟨[], 0⟩
  else
    let (num, den) := x.ratio
    let k := decimalPoint num den
    ((List.range 17).findSome? fun i => onGrid x num den k (i + 1)).getD (significant 17 x)

end CellScript.Real
