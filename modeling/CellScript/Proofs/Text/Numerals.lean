import CellScript.Parser

/-! Decimal numerals: the digits of a number denote it. -/
namespace CellScript.Text

theorem toNat_digit (n : Nat) : (digit n).toNat = 48 + n % 10 := by
  unfold digit
  rw [Nat.toUInt8_eq, UInt8.toNat_ofNat']
  omega

theorem digitsValue_append_digit (ds : Text) (n : Nat) :
    digitsValue (ds ++ [digit n]) = digitsValue ds * 10 + n % 10 := by
  simp [digitsValue, toNat_digit]

/-- The digits of a number denote it. -/
theorem digitsValue_ofNat (n : Nat) : digitsValue (ofNat n) = n := by
  fun_induction ofNat n with
  | case1 n small =>
    rw [← List.nil_append [digit n], digitsValue_append_digit]
    simp [digitsValue]
    omega
  | case2 n large ih =>
    rw [digitsValue_append_digit, ih]
    omega

end CellScript.Text

namespace CellScript.Parser

/-- The numeral of a 64-bit integer without a sign denotes it. -/
theorem integerValue?_ofNat {n : Int64} (positive : 0 ≤ n.toInt) :
    integerValue? (Text.ofNat n.toInt.toNat) = some n := by
  have bound : n.toInt.toNat < Nat.pow 2 63 := by
    have := n.toInt_lt
    simp only [Nat.pow_eq]
    omega
  unfold integerValue?
  rw [Text.digitsValue_ofNat, if_pos bound]
  refine congrArg some (Int64.toInt.inj ?_)
  rw [Int64.toInt_ofNat_of_lt bound, Int.toNat_of_nonneg positive]

theorem integerValue?_nonneg {digits : Text} {n : Int64} (value : integerValue? digits = some n) :
    0 ≤ n.toInt := by
  simp only [integerValue?] at value
  split at value
  next bound =>
    cases value
    rw [Int64.toInt_ofNat_of_lt bound]
    omega
  next => cases value

end CellScript.Parser
