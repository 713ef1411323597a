import CellScript.Text.Rune

/-! Code points and their bytes: the bytes that a code point was read from are its encoding, so a text of
UTF-8 is put together again from its runes. -/
namespace CellScript

theorem toUInt8_eq {n : Nat} {b : UInt8} (same : n = b.toNat) : n.toUInt8 = b := by
  rw [same, Nat.toUInt8_eq, UInt8.ofNat_toNat]

namespace Rune

theorem continuation_bounds {b : UInt8} (continuation : isContinuation b) :
    128 ≤ b.toNat ∧ b.toNat ≤ 191 := by
  simpa [isContinuation, UInt8.le_iff_toNat_le] using continuation

theorem scalar_bound {n : Nat} (scalar : isScalar n) : n < 0x110000 := by
  simp [isScalar] at scalar
  omega

section Encode

variable {b c d e : UInt8} {n : Nat}

theorem encode_two (low : 194 ≤ b.toNat) (high : b.toNat < 224) (second : isContinuation c)
    (value : (b.toNat - 192) * 64 + (c.toNat - 128) = n) : encode n = [b, c] := by
  have second := continuation_bounds second
  unfold encode
  rw [if_neg (by omega), if_pos (by omega), toUInt8_eq (b := b) (by omega), toUInt8_eq (b := c) (by omega)]

theorem encode_three (low : 224 ≤ b.toNat) (high : b.toNat < 240) (second : isContinuation c)
    (third : isContinuation d)
    (value : (b.toNat - 224) * 4096 + (c.toNat - 128) * 64 + (d.toNat - 128) = n) (shortest : 2048 ≤ n)
    (scalar : isScalar n) : encode n = [b, c, d] := by
  have second := continuation_bounds second
  have third := continuation_bounds third
  unfold encode
  rw [if_neg (by omega), if_neg (by omega), if_neg (by simp [scalar]), if_pos (by omega),
    toUInt8_eq (b := b) (by omega), toUInt8_eq (b := c) (by omega), toUInt8_eq (b := d) (by omega)]

theorem encode_four (low : 240 ≤ b.toNat) (second : isContinuation c) (third : isContinuation d)
    (fourth : isContinuation e)
    (value : (b.toNat - 240) * 262144 + (c.toNat - 128) * 4096 + (d.toNat - 128) * 64 + (e.toNat - 128) = n)
    (shortest : 65536 ≤ n) (scalar : isScalar n) : encode n = [b, c, d, e] := by
  have bound := scalar_bound scalar
  have second := continuation_bounds second
  have third := continuation_bounds third
  have fourth := continuation_bounds fourth
  unfold encode
  rw [if_neg (by omega), if_neg (by omega), if_neg (by simp [scalar]), if_neg (by omega),
    toUInt8_eq (b := b) (by omega), toUInt8_eq (b := c) (by omega), toUInt8_eq (b := d) (by omega),
    toUInt8_eq (b := e) (by omega)]

/-- The bytes that a code point was read from are its encoding. -/
theorem encode_first {t : Text} {count : Nat} (found : first b t = (.point n, count)) :
    encode n = b :: t.take count := by
  unfold first at found
  simp only [UInt8.lt_iff_toNat_lt, UInt8.le_iff_toNat_le] at found
  split at found
  next ascii =>
    obtain ⟨rfl, rfl⟩ : b.toNat = n ∧ 0 = count := by simpa using found
    have small : b.toNat < 128 := ascii
    simp [encode, small]
  next =>
  split at found
  next two =>
    split at found
    next c _ =>
      split at found
      next shape =>
        simp only [Prod.mk.injEq, point.injEq] at found
        obtain ⟨code, rfl⟩ := found
        simp only [Bool.and_eq_true, decide_eq_true_eq] at shape
        exact encode_two shape.1 two shape.2 code
      next => cases found
    next => cases found
  next three =>
  split at found
  next four =>
    split at found
    next c d _ =>
      split at found
      next shape =>
        simp only [Prod.mk.injEq, point.injEq] at found
        obtain ⟨code, rfl⟩ := found
        rw [code] at shape
        simp only [Bool.and_eq_true, decide_eq_true_eq] at shape
        obtain ⟨⟨⟨second, third⟩, shortest⟩, scalar⟩ := shape
        exact encode_three (Nat.le_of_not_lt three) four second third code shortest scalar
      next => cases found
    next => cases found
  next four =>
    split at found
    next c d e _ =>
      split at found
      next shape =>
        simp only [Prod.mk.injEq, point.injEq] at found
        obtain ⟨code, rfl⟩ := found
        rw [code] at shape
        simp only [Bool.and_eq_true, decide_eq_true_eq] at shape
        obtain ⟨⟨⟨⟨second, third⟩, fourth⟩, shortest⟩, scalar⟩ := shape
        exact encode_four (Nat.le_of_not_lt four) second third fourth code shortest scalar
      next => cases found
    next => cases found

end Encode

/-- An encoding is the code point itself or has no byte below 128. -/
theorem encode_bytes (n : Nat) : encode n = [n.toUInt8] ∧ n < 128 ∨ ∀ b ∈ encode n, 128 ≤ b.toNat := by
  unfold encode
  split
  next small => exact .inl ⟨rfl, small⟩
  next large =>
    right
    split
    next two =>
      simp
      omega
    next wide =>
    split
    next => simp
    next scalar =>
    have bound := scalar_bound (by simpa using scalar)
    split
    next three =>
      simp
      omega
    next four =>
      simp
      omega

theorem length_encode_le (n : Nat) : (encode n).length ≤ 4 := by
  unfold encode
  split
  · simp
  split
  · simp
  split
  · simp
  split <;> simp

end Rune

/-- A text of UTF-8 is put together again from the code points of its runes. -/
theorem Text.flatMap_runes {t : Text} (valid : t.isUtf8) :
    (t.runes.flatMap fun r => Rune.encode r.code) = t := by
  fun_induction runes t with
  | case1 => rfl
  | case2 b t ih =>
    rw [isUtf8, runes, List.all_cons, Bool.and_eq_true] at valid
    obtain ⟨point, rest⟩ := valid
    rw [List.flatMap_cons, ih rest]
    cases found : Rune.first b t with
    | mk r count =>
    cases r with
    | stray => simp [found] at point
    | point n =>
      simp only [Rune.code, Rune.encode_first found, List.cons_append, List.take_append_drop]

/-! The bytes of a string. -/

namespace Rune

section First

variable {b c d e : UInt8} {t : Text}

theorem first_two (low : 194 ≤ b.toNat) (high : b.toNat < 224) (second : isContinuation c) :
    first b (c :: t) = (.point ((b.toNat - 192) * 64 + (c.toNat - 128)), 1) := by
  have wide : ¬ b < 0x80 := fun small => absurd (UInt8.lt_iff_toNat_lt.mp small) (show ¬ _ < 128 by omega)
  have two : b < 0xE0 := UInt8.lt_iff_toNat_lt.mpr high
  have shortest : 0xC2 ≤ b := UInt8.le_iff_toNat_le.mpr low
  simp [first, wide, two, shortest, second]

theorem first_three (low : 224 ≤ b.toNat) (high : b.toNat < 240) (second : isContinuation c)
    (third : isContinuation d) {n : Nat}
    (value : (b.toNat - 224) * 4096 + (c.toNat - 128) * 64 + (d.toNat - 128) = n) (shortest : 2048 ≤ n)
    (scalar : isScalar n) : first b (c :: d :: t) = (.point n, 2) := by
  have wide : ¬ b < 0x80 := fun small => absurd (UInt8.lt_iff_toNat_lt.mp small) (show ¬ _ < 128 by omega)
  have two : ¬ b < 0xE0 := fun small => absurd (UInt8.lt_iff_toNat_lt.mp small) (show ¬ _ < 224 by omega)
  have three : b < 0xF0 := UInt8.lt_iff_toNat_lt.mpr high
  simp [first, wide, two, three, second, third, value, shortest, scalar]

theorem first_four (low : 240 ≤ b.toNat) (second : isContinuation c) (third : isContinuation d)
    (fourth : isContinuation e) {n : Nat}
    (value : (b.toNat - 240) * 262144 + (c.toNat - 128) * 4096 + (d.toNat - 128) * 64 + (e.toNat - 128) = n)
    (shortest : 65536 ≤ n) (scalar : isScalar n) : first b (c :: d :: e :: t) = (.point n, 3) := by
  have wide : ¬ b < 0x80 := fun small => absurd (UInt8.lt_iff_toNat_lt.mp small) (show ¬ _ < 128 by omega)
  have two : ¬ b < 0xE0 := fun small => absurd (UInt8.lt_iff_toNat_lt.mp small) (show ¬ _ < 224 by omega)
  have three : ¬ b < 0xF0 := fun small => absurd (UInt8.lt_iff_toNat_lt.mp small) (show ¬ _ < 240 by omega)
  simp [first, wide, two, three, second, third, fourth, value, shortest, scalar]

end First

theorem toNat_ofNat {n : Nat} (small : n < 256) : (UInt8.ofNat n).toNat = n := by
  rw [UInt8.toNat_ofNat', Nat.mod_eq_of_lt small]

theorem isContinuation_ofNat (n : Nat) : isContinuation (UInt8.ofNat (n % 64 + 128)) := by
  have value : (UInt8.ofNat (n % 64 + 128)).toNat = n % 64 + 128 := toNat_ofNat (by omega)
  simp only [isContinuation, UInt8.le_iff_toNat_le, value, Bool.and_eq_true, decide_eq_true_eq]
  exact ⟨show 128 ≤ _ by omega, show _ ≤ 191 by omega⟩

/-- A character is read from its encoding, and nothing after it. -/
theorem first_utf8EncodeChar (c : Char) (t : Text) : ∃ b r, String.utf8EncodeChar c = b :: r ∧
    first b (r ++ t) = (.point c.toNat, r.length) := by
  have scalar : isScalar c.toNat := by
    have := c.valid
    simp [isScalar, UInt32.isValidChar, Nat.isValidChar] at this ⊢
    omega
  have bound := scalar_bound scalar
  unfold String.utf8EncodeChar
  rw [show c.val.toNat = c.toNat from rfl]
  generalize c.toNat = n at *
  simp only
  split
  next ascii =>
    refine ⟨_, _, rfl, ?_⟩
    have value : (UInt8.ofNat n).toNat = n := toNat_ofNat (by omega)
    have small : UInt8.ofNat n < 0x80 := UInt8.lt_iff_toNat_lt.mpr (show _ < 128 by omega)
    simp [first, small, value]
  split
  next =>
    refine ⟨_, _, rfl, ?_⟩
    have value : (UInt8.ofNat (n / 64 % 32 + 192)).toNat = n / 64 + 192 := by
      rw [toNat_ofNat (by omega)]
      omega
    have last : (UInt8.ofNat (n % 64 + 128)).toNat = n % 64 + 128 := toNat_ofNat (by omega)
    rw [List.cons_append, first_two (by omega) (by omega) (isContinuation_ofNat _), value, last]
    refine Prod.ext (congrArg point ?_) rfl
    omega
  split
  next =>
    refine ⟨_, _, rfl, ?_⟩
    have value : (UInt8.ofNat (n / 4096 % 16 + 224)).toNat = n / 4096 + 224 := by
      rw [toNat_ofNat (by omega)]
      omega
    have second : (UInt8.ofNat (n / 64 % 64 + 128)).toNat = n / 64 % 64 + 128 := toNat_ofNat (by omega)
    have last : (UInt8.ofNat (n % 64 + 128)).toNat = n % 64 + 128 := toNat_ofNat (by omega)
    exact first_three (by omega) (by omega) (isContinuation_ofNat _) (isContinuation_ofNat _) (by omega)
      (by omega) scalar
  next =>
    refine ⟨_, _, rfl, ?_⟩
    have value : (UInt8.ofNat (n / 262144 % 8 + 240)).toNat = n / 262144 + 240 := by
      rw [toNat_ofNat (by omega)]
      omega
    have second : (UInt8.ofNat (n / 4096 % 64 + 128)).toNat = n / 4096 % 64 + 128 := toNat_ofNat (by omega)
    have third : (UInt8.ofNat (n / 64 % 64 + 128)).toNat = n / 64 % 64 + 128 := toNat_ofNat (by omega)
    have last : (UInt8.ofNat (n % 64 + 128)).toNat = n % 64 + 128 := toNat_ofNat (by omega)
    exact first_four (by omega) (isContinuation_ofNat _) (isContinuation_ofNat _) (isContinuation_ofNat _)
      (by omega) (by omega) scalar

end Rune

/-- The bytes of a string are UTF-8. -/
theorem isUtf8_utf8 (s : String) : (utf8 s).isUtf8 := by
  have bytes : utf8 s = s.toList.flatMap String.utf8EncodeChar := by
    have encoded : s.toByteArray = (s.toList.flatMap String.utf8EncodeChar).toByteArray := by
      conv => lhs; rw [← @String.ofList_toList s, String.toByteArray_ofList]
      rfl
    rw [utf8, String.toUTF8, encoded]
    simp
  rw [bytes]
  generalize s.toList = cs
  induction cs with
  | nil => simp [Text.isUtf8, Text.runes]
  | cons c cs ih =>
    obtain ⟨b, r, same, read⟩ := Rune.first_utf8EncodeChar c (cs.flatMap String.utf8EncodeChar)
    unfold Text.isUtf8 at ih ⊢
    rw [List.flatMap_cons, same, List.cons_append, Text.runes, read, List.all_cons, List.drop_left, ih]
    rfl

end CellScript
