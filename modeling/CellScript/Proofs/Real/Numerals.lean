import CellScript.Integer
import CellScript.Proofs.Json.Depth
import CellScript.Proofs.Real.Finite
import CellScript.Proofs.Text.Numerals
import CellScript.Real.Format

/-! The texts that are written for numbers: integers of 64 bits are read back from theirs, and the texts of
integers and of finite reals are number texts. -/
namespace CellScript

namespace Text

theorem isDigit_digit (n : Nat) : isDigit (digit n) := by
  have all : ∀ d < 10, isDigit (digit d) := by decide
  have same : digit n = digit (n % 10) := by
    unfold digit
    rw [Nat.mod_mod]
  rw [same]
  exact all _ (Nat.mod_lt _ (by decide))

theorem isDigit_ofNat (n : Nat) : ∀ b ∈ ofNat n, isDigit b := by
  fun_induction ofNat n with
  | case1 n =>
    intro b held
    rw [List.mem_singleton.mp held]
    exact isDigit_digit n
  | case2 n _ ih =>
    intro b held
    rcases List.mem_append.mp held with held | held
    · exact ih b held
    · rw [List.mem_singleton.mp held]
      exact isDigit_digit n

theorem ofNat_ne_nil (n : Nat) : ofNat n ≠ [] := by
  unfold ofNat
  split <;> simp

/-- A number below a power of ten has no more digits than the exponent. -/
theorem length_ofNat_le {n k : Nat} (positive : 0 < k) (bound : n < 10 ^ k) : (ofNat n).length ≤ k := by
  fun_induction ofNat n generalizing k with
  | case1 => exact positive
  | case2 n large ih =>
    obtain ⟨k, rfl⟩ : ∃ m, k = m + 1 := ⟨k - 1, by omega⟩
    rw [Nat.pow_succ] at bound
    have positive : 0 < k := by
      refine Nat.pos_of_ne_zero ?_
      rintro rfl
      omega
    have rest := ih positive (by omega)
    rw [List.length_append, List.length_singleton]
    omega

end Text

namespace Integer

theorem le_foldl (t : Text) (n : Nat) : n ≤ t.foldl (fun n b => n * 10 + (b.toNat - 48)) n := by
  induction t generalizing n with
  | nil => exact Nat.le_refl n
  | cons b t ih =>
    have := ih (n * 10 + (b.toNat - 48))
    rw [List.foldl_cons]
    omega

/-- Digits are read one by one, as long as the number has 64 bits. -/
theorem digits?_eq {t : Text} {n : Nat} (digits : ∀ b ∈ t, Text.isDigit b)
    (bound : t.foldl (fun n b => n * 10 + (b.toNat - 48)) n < 2 ^ 64) :
    digits? n t = .ok (some (t.foldl (fun n b => n * 10 + (b.toNat - 48)) n)) := by
  induction t generalizing n with
  | nil => rfl
  | cons b t ih =>
    obtain ⟨digit, rest⟩ := List.forall_mem_cons.mp digits
    rw [List.foldl_cons] at bound
    have small : n * 10 + (b.toNat - 48) < Nat.pow 2 64 :=
      Nat.lt_of_le_of_lt (le_foldl t _) bound
    rw [digits?, if_pos digit, if_pos small, ih rest bound, List.foldl_cons]

theorem digits?_ofNat {n : Nat} (bound : n < 2 ^ 64) : digits? 0 (Text.ofNat n) = .ok (some n) := by
  have value : (Text.ofNat n).foldl (fun n b => n * 10 + (b.toNat - 48)) 0 = n :=
    Text.digitsValue_ofNat n
  rw [digits?_eq (Text.isDigit_ofNat n) (by rwa [value]), value]

theorem ofNat_head {n : Nat} : ∃ b t, Text.ofNat n = b :: t ∧ Text.isDigit b := by
  obtain ⟨b, t, same⟩ := List.exists_cons_of_ne_nil (Text.ofNat_ne_nil n)
  exact ⟨b, t, same, Text.isDigit_ofNat n b (by rw [same]; exact List.mem_cons_self)⟩

/-- The decimal text of a 64-bit integer denotes it. -/
theorem read_ofInt {n : Int} (fits : (Int64.ofInt n).toInt = n) :
    read (Text.ofInt n) = .ok (Int64.ofInt n) := by
  have low := (Int64.ofInt n).le_toInt
  have high := (Int64.ofInt n).toInt_lt
  rw [fits] at low high
  cases n with
  | ofNat n =>
    have small : n < 2 ^ 63 := by
      simp only [Int.ofNat_eq_natCast] at high
      omega
    have value := @digits?_ofNat n (by omega)
    obtain ⟨b, t, same, digit⟩ := @ofNat_head n
    rw [same] at value
    have minus : b ≠ byte '-' := by
      rintro rfl
      exact absurd digit (by decide)
    have plus : b ≠ byte '+' := by
      rintro rfl
      exact absurd digit (by decide)
    simp only [Text.ofInt, read, same, if_neg minus, if_neg plus, value, Option.getD_some,
      Bool.false_eq_true, if_false]
    rw [if_pos (show n < Nat.pow 2 63 from small)]
    rfl
  | negSucc n =>
    have small : n + 1 ≤ 2 ^ 63 := by omega
    have value := @digits?_ofNat (n + 1) (by omega)
    obtain ⟨b, t, same, -⟩ := @ofNat_head (n + 1)
    rw [same] at value
    simp only [Text.ofInt, read, same, if_true, value, Option.getD_some]
    rw [if_pos (show n + 1 ≤ Nat.pow 2 63 from small)]
    rfl

@[simp] theorem read_text (n : Int64) : read (text n) = .ok n := by
  rw [text, read_ofInt (by rw [Int64.ofInt_toInt]), Int64.ofInt_toInt]

end Integer

namespace Json

open Reading

theorem isNumberByte_digit {b : UInt8} (digit : Text.isDigit b) : isNumberByte b := by
  simp [isNumberByte, digit]

theorem isNumeral_bytes {t : Text} (numeral : isNumeral t) : t.all isNumberByte := by
  cases t with
  | nil => rfl
  | cons b t =>
    simp only [isNumeral, Bool.and_eq_true, Bool.or_eq_true, decide_eq_true_eq] at numeral
    rw [List.all_cons, numeral.2, Bool.and_true]
    rcases numeral.1 with rfl | digit
    · decide
    · exact isNumberByte_digit digit

/-- The decimal text of an integer is a number text. -/
theorem isNumeral_ofInt (n : Int) : isNumeral (Text.ofInt n) := by
  have bytes (n : Nat) : (Text.ofNat n).all isNumberByte :=
    List.all_eq_true.mpr fun b held => isNumberByte_digit (Text.isDigit_ofNat n b held)
  cases n with
  | ofNat n =>
    have bytes := bytes n
    obtain ⟨b, t, same, digit⟩ := @Integer.ofNat_head n
    rw [same, List.all_cons, Bool.and_eq_true] at bytes
    simp [Text.ofInt, same, isNumeral, digit, bytes.2]
  | negSucc n => simp [Text.ofInt, isNumeral, bytes (n + 1)]

end Json

namespace Real

open Json Json.Reading

/-- A text of bytes that numbers hold denotes a finite real, if any. -/
theorem decode_numberBytes {t : Text} {x : Float} (bytes : t.all isNumberByte)
    (value : read? t = some x) : ∃ negative m, decode x = .finite negative m := by
  -- The words for what is not finite all have an `n`, which no number has.
  have other : ∀ b, isNumberByte b → lowerByte b ≠ byte 'n' := by
    have all : ∀ k < 256, isNumberByte (UInt8.ofNat k) → lowerByte (UInt8.ofNat k) ≠ byte 'n' := by
      decide +kernel
    intro b
    have := all b.toNat b.toNat_lt
    rwa [UInt8.ofNat_toNat] at this
  have word : ∀ {body w : Text}, body.all isNumberByte → byte 'n' ∈ w → body.map lowerByte ≠ w := by
    rintro body _ bytes held rfl
    obtain ⟨b, member, same⟩ := List.mem_map.mp held
    exact other b (List.all_eq_true.mp bytes b member) same
  unfold read? at value
  split at value
  next signed negative body taken =>
    have bytes : body.all isNumberByte := by
      split at taken
      next b r =>
        rw [List.all_cons, Bool.and_eq_true] at bytes
        split at taken
        · cases taken
          exact bytes.2
        split at taken
        · cases taken
          exact bytes.2
        · cases taken
          rw [List.all_cons, bytes.1, bytes.2]
          rfl
      next =>
        cases taken
        exact bytes
    have inf : body.map lowerByte ≠ utf8 "inf" := word bytes (by decide)
    have infinity : body.map lowerByte ≠ utf8 "infinity" := word bytes (by decide)
    have nan : body.map lowerByte ≠ utf8 "nan" := word bytes (by decide)
    simp only [inf, infinity, nan, decide_false, Bool.or_self, Bool.false_eq_true, if_false,
      Option.ite_none_right_eq_some, Option.bind_eq_some_iff] at value
    obtain ⟨-, p, -, value⟩ := value
    exact ⟨negative, decode_value? value⟩

/-! Whole numbers of moderate length are within the range of doubles. -/

theorem divideToEven_le (num den : Nat) : divideToEven num den ≤ num / den + 1 := by
  unfold divideToEven
  simp only
  split <;> omega

theorem scaleDown_lt {num : Nat} {e : Int} (some : num ≠ 0) (large : (num.log2 : Int) - 53 ≤ e) :
    (scaleDown num 1 e).1 / (scaleDown num 1 e).2 < 2 ^ 54 := by
  have bound : num < 2 ^ (num.log2 + 1) := (Nat.log2_lt some).mp (Nat.lt_succ_self _)
  unfold scaleDown
  split
  next up =>
    simp only [Nat.pow_eq, Nat.one_mul]
    rw [Nat.div_lt_iff_lt_mul (Nat.two_pow_pos _), ← Nat.pow_add]
    exact Nat.lt_of_lt_of_le bound (Nat.pow_le_pow_right (by decide) (by omega))
  next down =>
    simp only [Nat.pow_eq, Nat.div_one]
    calc num * 2 ^ (-e).toNat
        < 2 ^ (num.log2 + 1) * 2 ^ (-e).toNat := Nat.mul_lt_mul_of_pos_right bound (Nat.two_pow_pos _)
      _ = 2 ^ (num.log2 + 1 + (-e).toNat) := by rw [← Nat.pow_add]
      _ ≤ 2 ^ 54 := Nat.pow_le_pow_right (by decide) (by omega)

theorem nearestBits_isSome {num : Nat} (bound : num < 2 ^ 200) : (nearestBits num 1).isSome := by
  unfold nearestBits
  split
  · rfl
  next some =>
    have size : num.log2 < 200 := (Nat.log2_lt some).mpr bound
    extract_lets guess
    have guessed : guess = (num.log2 : Int) - 52 := by
      simp only [guess, show Nat.log2 1 = 0 from rfl]
      omega
    simp only [Nat.pow_eq]
    generalize low : (if (scaleDown num 1 guess).1 / (scaleDown num 1 guess).2 < 2 ^ 52 then guess - 1
      else guess) = e
    have range : e = guess - 1 ∨ e = guess := by
      rw [← low]
      split
      · exact .inl rfl
      · exact .inr rfl
    have quotient := divideToEven_le (scaleDown num 1 (max (-1074) e)).1 (scaleDown num 1 (max (-1074) e)).2
    have scaled := @scaleDown_lt num (max (-1074) e) some (by omega)
    have field : (max (-1074) e + 1074).toNat ≤ 1922 := by omega
    rw [if_pos (by omega)]
    rfl

theorem nearest_isSome (negative : Bool) {num : Nat} (bound : num < 2 ^ 200) :
    (nearest negative num 1).isSome := by
  rw [nearest, Option.isSome_map]
  exact nearestBits_isSome bound

theorem separators_digits {t : Text} {seen : Char} (digits : ∀ b ∈ t, Text.isDigit b)
    (fresh : seen ≠ '_') : separatorsBetweenDigits false seen t := by
  induction t generalizing seen with
  | nil => simpa [separatorsBetweenDigits] using fresh
  | cons b t ih =>
    obtain ⟨digit, rest⟩ := List.forall_mem_cons.mp digits
    simp [separatorsBetweenDigits, digit, ih rest]

theorem hexDigit?_digit {b : UInt8} (digit : Text.isDigit b) : hexDigit? b = some (b.toNat - 48) := by
  simp [hexDigit?, lowerByte_digit digit, digit]

theorem digitValues_digits {t : Text} (digits : ∀ b ∈ t, Text.isDigit b) :
    digitValues t = t.map fun b => b.toNat - 48 := by
  induction t with
  | nil => rfl
  | cons b t ih =>
    obtain ⟨digit, rest⟩ := List.forall_mem_cons.mp digits
    rw [digitValues, List.filterMap_cons, hexDigit?_digit digit]
    exact congrArg _ (ih rest)

theorem foldl_digits_lt {ds : List Nat} (n : Nat) (digits : ∀ d ∈ ds, d < 10) :
    ds.foldl (fun n d => n * 10 + d) n < (n + 1) * 10 ^ ds.length := by
  induction ds generalizing n with
  | nil => simp
  | cons d ds ih =>
    obtain ⟨digit, rest⟩ := List.forall_mem_cons.mp digits
    rw [List.foldl_cons, List.length_cons, Nat.pow_succ]
    calc ds.foldl (fun n d => n * 10 + d) (n * 10 + d)
        < (n * 10 + d + 1) * 10 ^ ds.length := ih _ rest
      _ ≤ ((n + 1) * 10) * 10 ^ ds.length := Nat.mul_le_mul_right _ (by omega)
      _ = (n + 1) * (10 ^ ds.length * 10) := by
        rw [Nat.mul_assoc, Nat.mul_comm 10]

theorem value?_isSome (negative : Bool) {ds : List Nat} (digits : ∀ d ∈ ds, d < 10)
    (short : ds.length ≤ 60) : (Parts.value? negative ⟨false, ds, 0, 0⟩).isSome := by
  have suffix := List.dropWhile_suffix (fun d : Nat => d == 0) (l := ds)
  have fewer := suffix.length_le
  have bound := foldl_digits_lt 0 fun d held => digits d (suffix.subset held)
  have range : (1 : Nat) * 10 ^ (ds.dropWhile (· == 0)).length ≤ 2 ^ 200 :=
    calc 1 * 10 ^ (ds.dropWhile (· == 0)).length
        ≤ 10 ^ 60 := by
          rw [Nat.one_mul]
          exact Nat.pow_le_pow_right (by decide) (by omega)
      _ ≤ 2 ^ 200 := by decide +kernel
  have zero : (nearest negative 0 1).isSome := nearest_isSome negative (by decide +kernel)
  unfold Parts.value?
  extract_lets kept base n e scale size
  have whole : e = 0 := rfl
  have places : size = (kept.length : Int) + 0 := rfl
  have few : kept.length ≤ 60 := Nat.le_trans fewer short
  have scaled : n * Nat.pow scale e.toNat = n := Nat.mul_one n
  split
  · exact zero
  rw [if_neg (by omega), if_neg (by omega), if_pos (by omega), scaled]
  exact nearest_isSome negative (Nat.lt_of_lt_of_le bound range)

theorem digitRun_digits {t : Text} (digits : ∀ b ∈ t, Text.isDigit b) : digitRun false t = t := by
  have whole : ∀ b ∈ t, (b == byte '_' || Text.isDigit b || (false && (hexDigit? b).isSome)) = true := by
    intro b held
    simp [digits b held]
  simpa [digitRun] using @List.takeWhile_append_of_pos _ _ t [] whole

theorem parts?_digits {t : Text} (digits : ∀ b ∈ t, Text.isDigit b) (some : t ≠ []) :
    parts? false t = .some ⟨false, t.map fun b => b.toNat - 48, 0, 0⟩ := by
  simp [parts?, digitRun_digits digits, digitValues_digits digits, some]
  rfl

/-- Digits after an optional minus sign denote a real, unless there are very many. -/
theorem read?_digits (negative : Bool) {t : Text} (digits : ∀ b ∈ t, Text.isDigit b) (some : t ≠ [])
    (short : t.length ≤ 60) : (read? ((if negative then [byte '-'] else []) ++ t)).isSome := by
  have lower : t.map lowerByte = t := by
    rw [List.map_congr_left fun b held => lowerByte_digit (digits b held), List.map_id']
  have other : ∀ {w : Text} {c : UInt8}, c ∈ w → Text.isDigit c = false → t ≠ w := by
    rintro _ c held letter rfl
    simp [digits c held] at letter
  have inf : t ≠ utf8 "inf" := @other _ (byte 'n') (by decide) (by decide)
  have infinity : t ≠ utf8 "infinity" := @other _ (byte 'n') (by decide) (by decide)
  have nan : t ≠ utf8 "nan" := @other _ (byte 'n') (by decide) (by decide)
  have hex : t.take 2 ≠ utf8 "0x" := by
    intro same
    have held : byte 'x' ∈ t.take 2 := by
      rw [same]
      decide
    exact absurd (digits _ (List.mem_of_mem_take held)) (by decide)
  have values : ∀ d ∈ t.map fun b => b.toNat - 48, d < 10 := by
    intro d held
    obtain ⟨b, member, rfl⟩ := List.mem_map.mp held
    have := digit_bounds (digits b member)
    omega
  have value := @value?_isSome negative _ values (by rwa [List.length_map])
  cases negative with
  | true =>
    simp [read?, lower, inf, infinity, nan, hex, separators_digits digits, parts?_digits digits some,
      value]
  | false =>
    obtain ⟨b, r, rfl⟩ := List.exists_cons_of_ne_nil some
    have minus : b ≠ byte '-' := by
      rintro rfl
      exact absurd (digits _ List.mem_cons_self) (by decide)
    have plus : b ≠ byte '+' := by
      rintro rfl
      exact absurd (digits _ List.mem_cons_self) (by decide)
    simp [read?, minus, plus, lower, inf, infinity, nan, hex, separators_digits digits,
      parts?_digits digits some, value, -List.map_cons, -List.take_succ_cons, -List.length_cons]

/-- The decimal text of a 64-bit integer denotes a real. -/
theorem read?_ofInt {n : Int} (fits : (Int64.ofInt n).toInt = n) : (read? (Text.ofInt n)).isSome := by
  have low := (Int64.ofInt n).le_toInt
  have high := (Int64.ofInt n).toInt_lt
  rw [fits] at low high
  have bound : n.natAbs < 10 ^ 20 := by omega
  cases n with
  | ofNat n =>
    have short := @Text.length_ofNat_le n 20 (by decide) bound
    exact @read?_digits false _ (Text.isDigit_ofNat n) (Text.ofNat_ne_nil n) (by omega)
  | negSucc n =>
    have short := @Text.length_ofNat_le (n + 1) 20 (by decide) bound
    exact @read?_digits true _ (Text.isDigit_ofNat (n + 1)) (Text.ofNat_ne_nil (n + 1)) (by omega)

/-! The texts of reals. -/

theorem isDigit_ofScaled (c : Nat) (e : Int) : ∀ b ∈ (Decimal.ofScaled c e).digits, Text.isDigit b := by
  unfold Decimal.ofScaled
  split
  · simp
  · intro b held
    have suffix := List.dropWhile_suffix (fun b : UInt8 => b == byte '0') (l := (Text.ofNat c).reverse)
    exact Text.isDigit_ofNat c b (List.mem_reverse.mp (suffix.subset (List.mem_reverse.mp held)))

theorem isDigit_significant (count : Nat) (x : Magnitude) :
    ∀ b ∈ (significant count x).digits, Text.isDigit b := by
  unfold significant
  split
  · simp
  · exact isDigit_ofScaled _ _

theorem isDigit_onGrid {x : Magnitude} {num den : Nat} {k : Int} {count : Nat} {d : Decimal}
    (found : onGrid x num den k count = some d) : ∀ b ∈ d.digits, Text.isDigit b := by
  unfold onGrid at found
  split at found
  extract_lets e nearer other at found
  split at found
  · cases found
    exact isDigit_ofScaled _ _
  split at found
  · cases found
    exact isDigit_ofScaled _ _
  · cases found

theorem isDigit_shortest (x : Magnitude) : ∀ b ∈ (shortest x).digits, Text.isDigit b := by
  unfold shortest
  split
  · simp
  obtain ⟨num, den⟩ := x.ratio
  simp only
  unfold Option.getD
  split
  next d found =>
    obtain ⟨i, -, found⟩ := List.exists_of_findSome?_eq_some found
    exact isDigit_onGrid found
  next => exact isDigit_significant 17 x

/-- A digit and then bytes that numbers hold. -/
def Starts (t : Text) : Prop := ∃ b r, t = b :: r ∧ Text.isDigit b ∧ r.all isNumberByte

theorem starts_of_digits {t r : Text} (digits : ∀ b ∈ t, Text.isDigit b) (some : t ≠ [])
    (rest : r.all isNumberByte) : Starts (t ++ r) := by
  obtain ⟨b, t, rfl⟩ := List.exists_cons_of_ne_nil some
  obtain ⟨digit, others⟩ := List.forall_mem_cons.mp digits
  refine ⟨b, t ++ r, rfl, digit, ?_⟩
  rw [List.all_append, rest, Bool.and_true, List.all_eq_true]
  exact fun c held => isNumberByte_digit (others c held)

theorem starts_positional {d : Decimal} (digits : ∀ b ∈ d.digits, Text.isDigit b) :
    Starts (positional d) := by
  unfold positional
  extract_lets front whole rest
  have zero : Text.isDigit (byte '0') := by decide
  have wholes : ∀ b ∈ whole, Text.isDigit b := by
    intro b held
    simp only [whole] at held
    split at held
    · rwa [List.mem_singleton.mp held]
    rcases List.mem_append.mp held with held | held
    · exact digits b (List.mem_of_mem_take held)
    · rwa [List.eq_of_mem_replicate held]
  have some : whole ≠ [] := by
    intro none
    have length := congrArg List.length none
    simp only [whole, front] at length
    split at length
    · cases length
    · simp only [List.length_append, List.length_replicate, List.length_nil] at length
      omega
  split
  · have := @starts_of_digits whole [] wholes some rfl
    rwa [List.append_nil] at this
  · rw [List.append_assoc, List.append_assoc]
    refine starts_of_digits wholes some ?_
    simp only [List.all_append, Bool.and_eq_true]
    refine ⟨by decide, List.all_eq_true.mpr fun b held => ?_, List.all_eq_true.mpr fun b held => ?_⟩
    · rw [List.eq_of_mem_replicate held]
      decide
    · exact isNumberByte_digit (digits b (List.mem_of_mem_drop held))

theorem starts_scientific {d : Decimal} (digits : ∀ b ∈ d.digits, Text.isDigit b) :
    Starts (scientific d) := by
  unfold scientific
  extract_lets e plain exponent mantissa
  have bytes : exponent.all isNumberByte := by
    have all : plain.all isNumberByte :=
      List.all_eq_true.mpr fun b held => isNumberByte_digit (Text.isDigit_ofNat _ b held)
    simp only [exponent]
    split
    · rw [List.all_cons, all]
      decide
    · exact all
  have tail : ([byte 'e', if e < 0 then byte '-' else byte '+'] ++ exponent).all isNumberByte := by
    rw [List.all_append, bytes]
    split <;> decide
  rw [List.append_assoc]
  simp only [mantissa]
  split
  next => exact ⟨_, _, rfl, by decide, tail⟩
  next x one => exact ⟨x, _, rfl, digits x (by rw [one]; exact List.mem_cons_self), tail⟩
  next x rest _ same =>
    rw [same] at digits
    obtain ⟨digit, others⟩ := List.forall_mem_cons.mp digits
    have bytes : rest.all isNumberByte :=
      List.all_eq_true.mpr fun b held => isNumberByte_digit (others b held)
    refine ⟨x, byte '.' :: rest ++ ([byte 'e', if e < 0 then byte '-' else byte '+'] ++ exponent), rfl,
      digit, ?_⟩
    rw [List.all_append, List.all_cons, bytes, tail]
    decide

theorem isNumeral_signed {negative : Bool} {t : Text} (starts : Starts t) :
    isNumeral (if negative then byte '-' :: t else t) := by
  obtain ⟨b, r, rfl, digit, bytes⟩ := starts
  cases negative with
  | true => simp [isNumeral, bytes, isNumberByte_digit digit]
  | false => simp [isNumeral, bytes, digit]

/-- The text of a finite real in JSON is a number text. -/
theorem isNumeral_write {x : Float} (finite : isFinite x) : isNumeral (serial.write x) := by
  unfold isFinite at finite
  split at finite
  next negative m decoded =>
    have digits := isDigit_shortest m
    simp only [Format.write, decoded, serial]
    exact isNumeral_signed
      (iteInduction (fun _ => starts_positional digits) fun _ => starts_scientific digits)
  next => cases finite

end Real

end CellScript
