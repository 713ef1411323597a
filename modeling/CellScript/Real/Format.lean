import CellScript.Real.Digits

/-! Texts of reals. Each place that writes reals has one format: how many digits, and for which
exponents the point is written in place. -/
namespace CellScript.Real

structure Format where
  /-- The number of significant digits, or the fewest that read back. -/
  digits : Option Nat
  /-- Positional for decimal exponents from `least` up to but not including `most`. -/
  least : Int
  most : Int
  nan : String
  infinity : String
  minusInfinity : String

/-- The text a program prints: six significant digits. -/
def printed : Format := ⟨some 6, -4, 6, "nan", "inf", "-inf"⟩

/-- The text in tree listings: the fewest digits. -/
def listed : Format := ⟨none, -4, 6, "NaN", "+Inf", "-Inf"⟩

/-- The text in JSON, where only finite reals have one. -/
def serial : Format := ⟨none, -6, 21, "", "", ""⟩

/-- Digits with the point in place. -/
def positional (d : Decimal) : Text :=
  let whole := d.digits.take d.point.toNat
  let whole := if d.point ≤ 0 then [byte '0']
    else whole ++ List.replicate (d.point.toNat - whole.length) (byte '0')
  let rest := d.digits.drop d.point.toNat
  if rest.isEmpty then whole
  else whole ++ [byte '.'] ++ List.replicate (-d.point).toNat (byte '0') ++ rest

/-- One digit before the point and an exponent of at least two digits. -/
def scientific (d : Decimal) : Text :=
  let e := d.point - 1
  let exponent := Text.ofNat e.natAbs
  let exponent := if exponent.length < 2 then byte '0' :: exponent else exponent
  let mantissa := match d.digits with
    | [] => [byte '0']
    | [x] => [x]
    | x :: rest => x :: byte '.' :: rest
  mantissa ++ [byte 'e', if e < 0 then byte '-' else byte '+'] ++ exponent

namespace Format

def write (f : Format) (x : Float) : Text :=
  match decode x with
  | .nan => utf8 f.nan
  | .infinite negative => utf8 (if negative then f.minusInfinity else f.infinity)
  | .finite negative m =>
    let d := match f.digits with
      | some count => significant count m
      | none => shortest m
    let body :=
      if d.digits.isEmpty || (f.least ≤ d.point - 1 && d.point - 1 < f.most) then positional d
      else scientific d
    if negative then byte '-' :: body else body

end Format

/-- Neither infinite nor not a number. -/
def isFinite (x : Float) : Bool :=
  match decode x with
  | .finite _ _ => true
  | _ => false

end CellScript.Real
