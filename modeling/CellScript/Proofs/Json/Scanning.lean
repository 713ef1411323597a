import Mathlib
import CellScript.Json.Writer
import CellScript.Proofs.Json.Window
import CellScript.Proofs.Text.Utf8

/-! What the reader makes of blanks, words, number texts and strings that have been written. Each loop
takes at most two steps for a byte: a refill and the byte itself. -/
namespace CellScript.Json

open Window (Holds Shows)
open Reading

section Again

variable {α : Type} {n : Nat} {w w' : Window} {next : UInt8 → Reading α} {go : Bool → Reading α}

theorem run_peek : (peek >>= next).run w = (next w.current).run w := rfl

theorem run_window {next : Window → Reading α} : (window >>= next).run w = (next w).run w := rfl

theorem run_refill (filled : w.refill? = some w') : (refill >>= go).run w = (go true).run w' := by
  rw [StateT.run_bind]
  have : refill.run w = some (true, w') := by
    rw [refill, run_window, filled]
    rfl
  rw [this]
  rfl

theorem afterSpace_again (zero : w.current = 0) (filled : w.refill? = some w') :
    (afterSpace (n + 1)).run w = (afterSpace n).run w' := by
  rw [afterSpace, run_peek, zero, if_neg (by decide), if_pos rfl, run_refill filled, if_pos rfl]

theorem numberText_again (zero : w.current = 0) (filled : w.refill? = some w') :
    (numberText (n + 1)).run w = (numberText n).run w' := by
  rw [numberText, run_peek, zero, if_neg (by decide), if_pos rfl, run_refill filled, if_pos rfl]

theorem quoted_again (zero : w.current = 0) (filled : w.refill? = some w') :
    (quoted (n + 1)).run w = (quoted n).run w' := by
  rw [quoted, run_peek, zero, if_neg (by decide), if_neg (by decide), if_pos rfl, run_refill filled,
    if_pos rfl]

theorem escapeLetter_again (zero : w.current = 0) (filled : w.refill? = some w') :
    (escapeLetter (n + 1)).run w = (escapeLetter n).run w' := by
  rw [escapeLetter, run_peek, zero, if_neg (by decide), run_refill filled, if_pos rfl]

theorem arrived_shown {count : Nat} (shown : count < w.live) :
    (arrived count (n + 1)).run w = some (true, w) := by
  show (if count < w.live then pure true else _ : Reading Bool).run w = _
  rw [if_pos shown]
  rfl

theorem arrived_again {count : Nat} (short : ¬ count < w.live) (filled : w.refill? = some w') :
    (arrived count (n + 1)).run w = (arrived count n).run w' := by
  show (if count < w.live then pure true else _ : Reading Bool).run w = _
  rw [if_neg short, run_refill filled, if_pos rfl]

end Again

section Scanning

variable {t r : Text} {b : UInt8} {n : Nat}

/-- Blanks are passed over, up to the next byte. -/
theorem reads_afterSpace {s : Text} (blank : s.all isSpace) (other : isSpace b = false)
    (nonzero : b ≠ 0) (steps : 2 * s.length + 2 ≤ n) :
    Reads (Holds (s ++ b :: r)) (afterSpace n) b (Shows 0 (b :: r)) := by
  induction s generalizing n with
  | nil =>
    refine reads_of_shown 1 afterSpace_again (fun n steps => ?_) steps
    obtain ⟨n, rfl⟩ : ∃ m, n = m + 1 := ⟨n - 1, by omega⟩
    rw [afterSpace]
    refine reads_peek.bind ?_
    rw [other, if_neg nofun, if_neg nonzero]
    exact reads_pure
  | cons c s ih =>
    rw [List.all_cons, Bool.and_eq_true] at blank
    rw [List.length_cons] at steps
    refine reads_of_shown (2 * s.length + 3) afterSpace_again
      (fun n steps => ?_) (by omega)
    obtain ⟨n, rfl⟩ : ∃ m, n = m + 1 := ⟨n - 1, by omega⟩
    rw [afterSpace]
    refine reads_peek.bind ?_
    rw [blank.1, if_pos rfl]
    exact reads_advance.bind (ih blank.2 (by omega))

/-- The text of a number ends before a byte that no number holds. -/
theorem reads_numberText {s : Text} (number : s.all isNumberByte) (other : isNumberByte b = false)
    (nonzero : b ≠ 0) (steps : 2 * s.length + 2 ≤ n) :
    Reads (Holds (s ++ b :: r)) (numberText n) s (Holds (b :: r)) := by
  induction s generalizing n with
  | nil =>
    refine reads_of_shown 1 numberText_again (fun n steps => ?_) steps
    obtain ⟨n, rfl⟩ : ∃ m, n = m + 1 := ⟨n - 1, by omega⟩
    rw [numberText]
    refine reads_peek.bind ?_
    rw [other, if_neg nofun, if_neg nonzero]
    exact reads_pure.of_imp fun _ shows => shows.toHolds
  | cons c s ih =>
    rw [List.all_cons, Bool.and_eq_true] at number
    rw [List.length_cons] at steps
    refine reads_of_shown (2 * s.length + 3) numberText_again
      (fun n steps => ?_) (by omega)
    obtain ⟨n, rfl⟩ : ∃ m, n = m + 1 := ⟨n - 1, by omega⟩
    rw [numberText]
    refine reads_peek.bind ?_
    rw [number.1, if_pos rfl]
    exact reads_advance.bind ((ih number.2 (by omega)).bind reads_pure)

/-- The rest of a word, whose letters may arrive one by one. -/
theorem reads_word {s : Text} : Reads (Shows 0 (b :: s ++ r)) (word s) () (Holds r) := by
  induction s generalizing b with
  | nil => exact reads_advance
  | cons c s ih =>
    rw [word]
    refine reads_advance.bind fun w held => ?_
    rw [run_peek]
    rcases held.shows_or_refill with shows | ⟨zero, w', filled, shows⟩
    · rw [shows.current, if_pos rfl]
      exact ih w shows
    · have other : (0 : UInt8) ≠ c := fun zero => held.nonzero (zero ▸ List.mem_cons_self)
      rw [zero, if_neg other, if_pos rfl, run_refill filled, if_pos rfl]
      exact ih w' shows

/-- Two refills bring a few bytes into sight. -/
theorem reads_arrived {count : Nat} (more : count < t.length) (small : count < Window.startSize)
    (steps : 3 ≤ n) : Reads (Holds t) (arrived count n) true (Shows count t) := by
  intro w held
  obtain ⟨n, rfl⟩ : ∃ m, n = m + 3 := ⟨n - 3, by omega⟩
  by_cases shown : count < w.ahead.length
  · exact ⟨w, arrived_shown (held.live ▸ shown), held, shown⟩
  obtain ⟨w₁, filled, held₁, -, first⟩ := held.refill more small (Nat.le_of_not_lt shown)
  rw [arrived_again (held.live ▸ shown) filled]
  by_cases shown₁ : count < w₁.ahead.length
  · exact ⟨w₁, arrived_shown (held₁.live ▸ shown₁), held₁, shown₁⟩
  obtain ⟨w₂, filled₂, held₂, -, second⟩ := held₁.refill more small (Nat.le_of_not_lt shown₁)
  rw [arrived_again (held₁.live ▸ shown₁) filled₂]
  have shown₂ : count < w₂.ahead.length := by
    refine second.resolve_right fun ⟨low, _⟩ => ?_
    rw [(first.resolve_left shown₁).2] at low
    cases low
  exact ⟨w₂, arrived_shown (held₂.live ▸ shown₂), held₂, shown₂⟩

end Scanning

section Strings

variable {r : Text} {n : Nat}

/-- The digits of an escape and the letter before them, with something after them. -/
theorem reads_codePoint {h : Text} {b c : UInt8} (four : h.length = 4)
    (plain : ¬ (0xD800 ≤ hexNumber h ∧ hexNumber h < 0xE000)) (steps : 3 ≤ n) :
    Reads (Holds (b :: h ++ c :: r)) (codePoint n) (Rune.encode (hexNumber h)) (Holds (c :: r)) := by
  have long : 5 < (b :: h ++ c :: r).length := by
    simp only [List.length_append, List.length_cons]
    omega
  unfold codePoint
  refine (reads_arrived long (by decide) steps).bind ?_
  rw [if_pos rfl]
  intro w shows
  have digits : (w.ahead.drop 1).take 4 = h := by
    rw [shows.take_drop (Nat.le_succ 4)]
    exact List.take_left' four
  rw [run_window]
  simp only [digits, ← Bool.decide_and, plain, decide_false]
  rw [if_neg nofun]
  have shown : Shows 4 (b :: h ++ c :: r) { w with passed := w.passed - 1 } :=
    ⟨shows.unpass, Nat.lt_of_succ_lt shows.shown⟩
  have short := Rune.length_encode_le (hexNumber h)
  exact ⟨_, rfl, shown.pass (by simp [four]) (by omega)⟩

/-- The reader takes the first text, inside a string, for the second, whatever string text follows. -/
def Quotes (s x : Text) : Prop :=
  ∀ (u y : Text) (after : Window → Prop), u ≠ [] →
    (∀ n, 2 * u.length ≤ n → Reads (Holds u) (quoted n) y after) →
      ∀ n, 2 * (s.length + u.length) ≤ n → Reads (Holds (s ++ u)) (quoted n) (x ++ y) after

theorem quotes_nil : Quotes [] [] := by
  intro u y after _ rest n steps
  rw [List.length_nil, Nat.zero_add] at steps
  exact rest n steps

theorem Quotes.append {s t x y : Text} (first : Quotes s x) (second : Quotes t y) :
    Quotes (s ++ t) (x ++ y) := by
  intro u z after nonempty rest n steps
  rw [List.append_assoc, List.append_assoc]
  rw [List.length_append] at steps
  refine first (t ++ u) (y ++ z) after (by simp [nonempty]) ?_ n (by rw [List.length_append]; omega)
  intro n steps
  rw [List.length_append] at steps
  exact second u z after nonempty rest n steps

theorem quotes_byte {b : UInt8} (quote : b ≠ byte '"') (backslash : b ≠ 92) (nonzero : b ≠ 0) :
    Quotes [b] [b] := by
  intro u y after _ rest n steps
  rw [List.length_singleton] at steps
  refine reads_of_shown (2 * u.length + 1) quoted_again (fun n steps => ?_) (by omega)
  obtain ⟨n, rfl⟩ : ∃ m, n = m + 1 := ⟨n - 1, by omega⟩
  rw [quoted]
  refine reads_peek.bind ?_
  rw [if_neg quote, if_neg backslash, if_neg nonzero]
  exact reads_advance.bind ((rest n (by omega)).bind reads_pure)

theorem quotes_bytes {s : Text} (plain : ∀ b ∈ s, b ≠ byte '"' ∧ b ≠ 92 ∧ b ≠ 0) : Quotes s s := by
  induction s with
  | nil => exact quotes_nil
  | cons b s ih =>
    obtain ⟨⟨quote, backslash, nonzero⟩, rest⟩ := List.forall_mem_cons.mp plain
    exact (quotes_byte quote backslash nonzero).append (ih rest)

/-- An escape, of which the reader makes a text. -/
theorem quotes_escape {s x : Text} {b : UInt8}
    (reads : ∀ (c : UInt8) (r : Text) n, 3 ≤ n →
      Reads (Shows 0 (92 :: b :: s ++ c :: r)) (escape n) x (Holds (c :: r))) :
    Quotes (92 :: b :: s) x := by
  intro u y after nonempty rest n steps
  obtain ⟨c, r, rfl⟩ := List.exists_cons_of_ne_nil nonempty
  rw [List.length_cons, List.length_cons, List.length_cons] at steps
  refine reads_of_shown (2 * r.length + 4) quoted_again (fun n steps => ?_) (by omega)
  obtain ⟨n, rfl⟩ : ∃ m, n = m + 1 := ⟨n - 1, by omega⟩
  rw [quoted]
  refine reads_peek.bind ?_
  rw [if_neg (by decide), if_pos rfl]
  refine (reads c r n (by omega)).bind ?_
  exact (rest n (by rw [List.length_cons]; omega)).bind reads_pure

theorem reads_escapeLetter {c : UInt8} (nonzero : c ≠ 0) (steps : 2 ≤ n) :
    Reads (Holds (c :: r)) (escapeLetter n) c (Shows 0 (c :: r)) := by
  refine reads_of_shown 1 escapeLetter_again (fun n steps => ?_) steps
  obtain ⟨n, rfl⟩ : ∃ m, n = m + 1 := ⟨n - 1, by omega⟩
  rw [escapeLetter]
  refine reads_peek.bind ?_
  rw [if_pos nonzero]
  exact reads_pure

theorem quotes_letter {b c : UInt8} (letter : b ≠ byte 'u') (nonzero : b ≠ 0)
    (escaped : escaped? b = some c) : Quotes [92, b] [c] := by
  refine quotes_escape fun d r n steps => ?_
  unfold escape
  refine reads_advance.bind ((reads_escapeLetter nonzero (by omega)).bind ?_)
  rw [if_neg letter, escaped]
  exact (reads_modify fun _ shows => shows.pass (s := [b]) rfl (Nat.zero_le _)).bind reads_pure

theorem quotes_code {h : Text} (four : h.length = 4)
    (plain : ¬ (0xD800 ≤ hexNumber h ∧ hexNumber h < 0xE000)) :
    Quotes (92 :: byte 'u' :: h) (Rune.encode (hexNumber h)) := by
  refine quotes_escape fun d r n steps => ?_
  unfold escape
  refine reads_advance.bind ((reads_escapeLetter (by decide) (by omega)).bind ?_)
  rw [if_pos rfl]
  exact (reads_codePoint four plain steps).of_imp fun _ shows => shows.toHolds

/-- The closing quote ends a string. -/
theorem reads_quoted {s x : Text} (quotes : Quotes s x)
    (steps : 2 * (s ++ byte '"' :: r).length ≤ n) :
    Reads (Holds (s ++ byte '"' :: r)) (quoted n) x (Holds r) := by
  rw [List.length_append] at steps
  have all := quotes (byte '"' :: r) [] (Holds r) nofun ?_ n steps
  · rwa [List.append_nil] at all
  intro n steps
  rw [List.length_cons] at steps
  refine reads_of_shown 1 quoted_again (fun n steps => ?_) (by omega)
  obtain ⟨n, rfl⟩ : ∃ m, n = m + 1 := ⟨n - 1, by omega⟩
  rw [quoted]
  refine reads_peek.bind ?_
  rw [if_pos rfl]
  exact reads_advance.bind reads_pure

theorem length_hex (width n : Nat) : (Text.hex width n).length = width := by
  induction width generalizing n with
  | zero => rfl
  | succ width ih => rw [Text.hex, List.length_append, ih, List.length_singleton]

theorem hexDigit?_hexDigit (n : Nat) : Real.hexDigit? (Text.hexDigit n) = some (n % 16) := by
  have all : ∀ d < 16, Real.hexDigit? (Text.hexDigit d) = some (d % 16) := by decide
  have same : Text.hexDigit n = Text.hexDigit (n % 16) := by
    unfold Text.hexDigit
    rw [Nat.mod_mod]
  rw [same, all _ (Nat.mod_lt _ (by decide)), Nat.mod_mod]

/-- Hexadecimal digits denote the number that they were written for. -/
theorem hexNumber_hex (width n : Nat) : hexNumber (Text.hex width n) = n % 16 ^ width := by
  induction width generalizing n with
  | zero => simp [Text.hex, hexNumber, Nat.mod_one]
  | succ width ih =>
    have step : hexNumber (Text.hex width (n / 16) ++ [Text.hexDigit n]) =
        hexNumber (Text.hex width (n / 16)) * 16 + n % 16 := by
      simp [hexNumber, hexDigit?_hexDigit]
    rw [Text.hex, step, ih, Nat.pow_succ, Nat.mul_comm (16 ^ width) 16, Nat.mod_mul]
    omega

/-- What is written for a code point is read as its encoding. -/
theorem quotes_point (n : Nat) : Quotes (escapePoint n) (Rune.encode n) := by
  have escape : ∀ n, n < 0xD800 → Quotes (utf8 "\\u" ++ Text.hex 4 n) (Rune.encode n) := by
    intro n small
    have number : hexNumber (Text.hex 4 n) = n := by
      rw [hexNumber_hex]
      exact Nat.mod_eq_of_lt (by omega)
    have quotes := quotes_code (length_hex 4 n) (by rw [number]; omega)
    rwa [number] at quotes
  unfold escapePoint
  split
  next special =>
    simp only [Bool.or_eq_true, decide_eq_true_eq] at special
    rcases special with rfl | rfl
    · exact quotes_letter (by decide) (by decide) rfl
    · exact quotes_letter (by decide) (by decide) rfl
  next ordinary =>
  split
  next newline =>
    subst newline
    exact quotes_letter (by decide) (by decide) rfl
  next =>
  split
  next return_ =>
    subst return_
    exact quotes_letter (by decide) (by decide) rfl
  next =>
  split
  next tab =>
    subst tab
    exact quotes_letter (by decide) (by decide) rfl
  next =>
  split
  next marked =>
    simp only [Bool.or_eq_true, decide_eq_true_eq] at marked
    exact escape n (by omega)
  next unmarked =>
    simp only [Bool.or_eq_true, decide_eq_true_eq] at ordinary unmarked
    rcases Rune.encode_bytes n with ⟨single, small⟩ | large
    · rw [single]
      have value : n.toUInt8.toNat = n := by
        rw [Nat.toUInt8_eq, UInt8.toNat_ofNat']
        omega
      have other : ∀ b : UInt8, b.toNat ≠ n → n.toUInt8 ≠ b := by
        rintro b differs rfl
        exact differs value
      exact quotes_byte (other _ (by simp [byte]; omega)) (other _ (by simp; omega))
        (other _ (by simp; omega))
    · refine quotes_bytes fun b held => ?_
      have high := large b held
      refine ⟨?_, ?_, ?_⟩
      all_goals
        rintro rfl
        revert high
        decide

theorem quotes_runes (rs : List Rune) :
    Quotes (rs.flatMap escapeRune) (rs.flatMap fun r => Rune.encode r.code) := by
  induction rs with
  | nil => exact quotes_nil
  | cons r rs ih =>
    cases r with
    | point n => exact (quotes_point n).append ih
    | stray b =>
      exact (quotes_code (h := utf8 "fffd") (by decide) (by decide)).append ih

/-- A written text of UTF-8 is read back, after its opening quote. -/
theorem reads_stringText {t : Text} (valid : t.isUtf8)
    (steps : 2 * (t.runes.flatMap escapeRune ++ byte '"' :: r).length ≤ n) :
    Reads (Holds (t.runes.flatMap escapeRune ++ byte '"' :: r)) (quoted n) t (Holds r) := by
  have quotes := quotes_runes t.runes
  rw [Text.flatMap_runes valid] at quotes
  exact reads_quoted quotes steps

/-- A written name, after blanks. -/
theorem reads_name {s t : Text} (blank : s.all isSpace) (valid : t.isUtf8)
    (steps : 2 * (s ++ stringText t ++ r).length ≤ n) :
    Reads (Holds (s ++ stringText t ++ r)) (name n) t (Holds r) := by
  have shape : s ++ stringText t ++ r = s ++ byte '"' :: (t.runes.flatMap escapeRune ++ byte '"' :: r) := by
    simp [stringText]
  rw [shape] at steps ⊢
  rw [List.length_append, List.length_cons] at steps
  unfold name
  refine (reads_afterSpace blank (by decide) (by decide) (by omega)).bind ?_
  rw [if_pos rfl]
  refine reads_advance.bind ((reads_stringText valid (by omega)).bind ?_)
  exact (reads_modify fun _ held => held.release).bind reads_pure

end Strings

end CellScript.Json
