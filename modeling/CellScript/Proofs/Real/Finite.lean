import Mathlib
import CellScript.Real.Reading

/-! Number texts denote finite reals: the bits found for the nearest double stay below those of infinity,
and a double keeps such bits. -/
namespace CellScript.Real

open Float.Model (Format UnpackedFloat)
open Float.Model.UnpackedFloat (Sign packComponents unpackSign unpackExponent unpackMantissa)

variable (b : BitVec 64)

theorem toNat_mantissa : (@unpackMantissa .binary64 b).toNat = b.toNat % 2 ^ 52 := by
  simp [unpackMantissa, BitVec.extractLsb]

theorem toNat_exponent : (@unpackExponent .binary64 b).toNat = b.toNat / 2 ^ 52 % 2 ^ 11 := by
  simp [unpackExponent, BitVec.extractLsb, Nat.shiftRight_eq_div_pow]

theorem toNat_sign : (@unpackSign .binary64 b).toNat = b.toNat / 2 ^ 63 := by
  have := b.isLt
  simp [unpackSign, BitVec.extractLsb, Nat.shiftRight_eq_div_pow]
  omega

theorem toNat_components (s : Sign) (e : BitVec 11) (m : BitVec 52) :
    (packComponents .binary64 s e m).toNat = s.toBitVec.toNat * 2 ^ 63 + e.toNat * 2 ^ 52 + m.toNat := by
  have := m.isLt
  have := e.isLt
  simp only [packComponents, BitVec.toNat_append]
  rw [← Nat.shiftLeft_add_eq_or_of_lt (by assumption), ← Nat.shiftLeft_add_eq_or_of_lt (by assumption)]
  simp only [Nat.shiftLeft_eq]
  omega

theorem sign_toBitVec (s : BitVec 1) : (Sign.ofBitVec s).toBitVec = s := by
  revert s
  decide

theorem components_unpacked :
    packComponents .binary64 (.ofBitVec (@unpackSign .binary64 b)) (@unpackExponent .binary64 b)
      (@unpackMantissa .binary64 b) = b := by
  apply BitVec.eq_of_toNat_eq
  rw [toNat_components, sign_toBitVec, toNat_sign, toNat_exponent, toNat_mantissa]
  have := b.isLt
  omega

theorem components_eq {e : BitVec 11} {m : BitVec 52} (exponent : @unpackExponent .binary64 b = e)
    (mantissa : @unpackMantissa .binary64 b = m) :
    packComponents .binary64 (.ofBitVec (@unpackSign .binary64 b)) e m = b := by
  subst exponent mantissa
  exact components_unpacked b

/-- Bits that stand for a finite number are kept by a double. -/
theorem pack_unpack (finite : @unpackExponent .binary64 b ≠ -1#11) :
    UnpackedFloat.pack .binary64 (.unpack .binary64 b) = b := by
  have bias : (Format.binary64.exponentBias : Int) = 1023 := rfl
  have small : (@unpackMantissa .binary64 b).toNat < 2 ^ 52 := (@unpackMantissa .binary64 b).isLt
  have field : (@unpackExponent .binary64 b).toNat < 2 ^ 11 := (@unpackExponent .binary64 b).isLt
  simp only [UnpackedFloat.unpack]
  rw [if_neg finite]
  split
  next zero =>
    split
    next none => exact components_eq b zero none
    next some =>
      have short : (@unpackMantissa .binary64 b).toNat.log2 < 52 := by
        rw [Nat.log2_lt (by simpa [BitVec.toNat_eq] using some)]
        exact small
      simp only [UnpackedFloat.pack, zero]
      rw [if_neg (by decide), if_neg (by simp only [Format.mantissaBits]; omega)]
      exact components_eq b zero (by rw [BitVec.ofNat_toNat, BitVec.setWidth_eq])
  next =>
    have bound : (@unpackExponent .binary64 b).toNat ≠ 2047 := by
      intro full
      exact finite (BitVec.eq_of_toNat_eq full)
    have mantissa :
        (1#1 ++ @unpackMantissa .binary64 b).toNat = 2 ^ 52 + (@unpackMantissa .binary64 b).toNat := by
      rw [BitVec.toNat_append, ← Nat.shiftLeft_add_eq_or_of_lt small]
      rfl
    have long : (2 ^ 52 + (@unpackMantissa .binary64 b).toNat).log2 = 52 :=
      (Nat.log2_eq_iff (by omega)).mpr ⟨by omega, by omega⟩
    have biased : (((@unpackExponent .binary64 b).toNat : Int) - (1023 + (52 : Nat)) + 1023 +
        (52 : Nat)).toNat = (@unpackExponent .binary64 b).toNat := by omega
    simp only [UnpackedFloat.pack, bias, biased, mantissa, long]
    rw [if_neg (by omega), if_pos (by decide)]
    refine components_eq b (by rw [BitVec.ofNat_toNat, BitVec.setWidth_eq]) ?_
    apply BitVec.eq_of_toNat_eq
    rw [BitVec.toNat_ofNat, show 2 ^ Format.binary64.mantissaBitsWithoutImplicit = 2 ^ 52 from rfl]
    omega

theorem toBits_ofBits {bits : UInt64} (finite : bits.toNat / 2 ^ 52 % 2 ^ 11 ≠ 2047) :
    (Float.ofBits bits).toBits = bits := by
  have kept : UnpackedFloat.pack .binary64 (.unpack .binary64 bits.toBitVec) = bits.toBitVec := by
    refine pack_unpack _ fun full => finite ?_
    have field := toNat_exponent bits.toBitVec
    rw [full] at field
    exact field.symm
  exact congrArg UInt64.ofBitVec kept

/-- Below the bits of infinity, with either sign, all bits stand for finite numbers. -/
theorem decode_ofBits {negative : Bool} {bits : Nat} (bound : bits < 2047 * 2 ^ 52) :
    ∃ m, decode (Float.ofBits (if negative then bits + 2 ^ 63 else bits).toUInt64) =
      .finite negative m := by
  have small : (if negative then bits + 2 ^ 63 else bits) < 2 ^ 64 := by
    split <;> omega
  have kept : (if negative then bits + 2 ^ 63 else bits).toUInt64.toNat =
      if negative then bits + 2 ^ 63 else bits := by
    rw [Nat.toUInt64_eq, UInt64.toNat_ofNat', Nat.mod_eq_of_lt small]
  have field : (if negative then bits + 2 ^ 63 else bits) / 2 ^ 52 % 2 ^ 11 ≠ 2047 := by
    split <;> omega
  have sign : decide (2 ^ 63 ≤ (if negative then bits + 2 ^ 63 else bits) % 2 ^ 64) = negative := by
    cases negative <;> simp <;> omega
  rw [decode, toBits_ofBits (by rwa [kept]), kept]
  unfold decodeBits
  simp only [Nat.pow_eq]
  rw [if_neg field, sign]
  split_ifs <;> exact ⟨_, rfl⟩

theorem nearestBits_lt {num den bits : Nat} (found : nearestBits num den = some bits) :
    bits < 2047 * 2 ^ 52 := by
  unfold nearestBits at found
  split at found
  next =>
    cases found
    decide
  next =>
    obtain ⟨bound, same⟩ := Option.ite_none_right_eq_some.mp found
    cases same
    exact bound

theorem decode_nearest {negative : Bool} {num den : Nat} {x : Float}
    (found : nearest negative num den = some x) : ∃ m, decode x = .finite negative m := by
  obtain ⟨bits, rounded, rfl⟩ := Option.map_eq_some_iff.mp found
  exact decode_ofBits (nearestBits_lt rounded)

theorem decode_value? {p : Parts} {negative : Bool} {x : Float} (value : p.value? negative = some x) :
    ∃ m, decode x = .finite negative m := by
  unfold Parts.value? at value
  extract_lets ds base n e scale size at value
  split_ifs at value
  all_goals exact decode_nearest value

/-- What a digit is not. -/
theorem digit_bounds {b : UInt8} (digit : Text.isDigit b) : 48 ≤ b.toNat ∧ b.toNat ≤ 57 := by
  simpa [Text.isDigit, byte, UInt8.le_iff_toNat_le] using digit

theorem lowerByte_digit {b : UInt8} (digit : Text.isDigit b) : lowerByte b = b := by
  have := digit_bounds digit
  have small : ¬ byte 'A' ≤ b := by
    rw [UInt8.le_iff_toNat_le, show (byte 'A').toNat = 65 from rfl]
    omega
  simp [lowerByte, small]

/-- A text with a digit after an optional minus sign denotes a finite real, with that sign. -/
theorem decode_read? {negative : Bool} {b : UInt8} {t : Text} {x : Float} (digit : Text.isDigit b)
    (value : read? ((if negative then [byte '-'] else []) ++ b :: t) = some x) :
    ∃ m, decode x = .finite negative m := by
  have bounds := digit_bounds digit
  have other : ∀ c : UInt8, 57 < c.toNat ∨ c.toNat < 48 → b ≠ c := by
    rintro c outside rfl
    omega
  have notMinus : b ≠ byte '-' := other _ (by decide)
  have notPlus : b ≠ byte '+' := other _ (by decide)
  have noInf : ∀ r, b :: r ≠ utf8 "inf" := fun r same => other _ (by decide) (List.cons.inj same).1
  have noInfinity : ∀ r, b :: r ≠ utf8 "infinity" :=
    fun r same => other _ (by decide) (List.cons.inj same).1
  have noNan : ∀ r, b :: r ≠ utf8 "nan" := fun r same => other _ (by decide) (List.cons.inj same).1
  cases negative <;>
  · simp [read?, notMinus, notPlus, lowerByte_digit digit, noInf, noInfinity, noNan,
      Option.bind_eq_some_iff, -List.length_cons] at value
    obtain ⟨-, p, -, value⟩ := value
    exact decode_value? value

end CellScript.Real
