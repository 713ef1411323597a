import Mathlib.Tactic.FinCases
import CellScript.Proofs.Json.Depth
import CellScript.Proofs.Json.Scanning

/-! A written value is read back if its strings are UTF-8, its number texts denote reals and it does not
nest deeper than the reader goes; if it does, nothing is read. -/
namespace CellScript.Json

open Window (Holds Shows)
open Reading

/-- The items of an array, from the first one to the closing bracket. -/
def itemsText (level : Nat) : List Json → Text
  | [] => []
  | item :: items => write (level + 1) item ++ writeItems level items

/-- The members of an object, from the first one to the closing brace. -/
def membersText (level : Nat) : List (Text × Json) → Text
  | [] => []
  | (name, value) :: members =>
    stringText name ++ utf8 ": " ++ write (level + 1) value ++ writeMembers level members

/-- What follows a value: a byte that ends a number. -/
def Closes (u : Text) : Prop := ∃ b v, u = b :: v ∧ isNumberByte b = false ∧ b ≠ 0

section Closes

theorem closes_cons {b : UInt8} {u : Text} (other : isNumberByte b = false := by decide)
    (nonzero : b ≠ 0 := by decide) : Closes (b :: u) := ⟨b, u, rfl, other, nonzero⟩

theorem newline_blank (level : Nat) : (newline level).all isSpace := by
  simp [newline, isSpace]

/-- What no value begins with, a blank apart. -/
def breaks : Text := [0, byte ']', byte ',', byte ':']

theorem numeral_head {b : UInt8} (starts : b = byte '-' ∨ Text.isDigit b) :
    isSpace b = false ∧ b ∉ breaks ∧ b ≠ byte '"' ∧ b ≠ byte '[' ∧ b ≠ 0x7B := by
  rcases starts with rfl | digit
  · decide
  · simp only [Text.isDigit, Bool.and_eq_true, decide_eq_true_eq, UInt8.le_iff_toNat_le] at digit
    have apart : ∀ c ∈ [32, 10, 9, 13] ++ breaks ++ [byte '"', byte '[', 0x7B], b ≠ c := by
      rintro c member rfl
      revert digit
      fin_cases member <;> decide
    simp only [breaks, List.forall_mem_append, List.forall_mem_cons, List.not_mem_nil, false_imp_iff,
      implies_true, and_true] at apart
    simp [isSpace, breaks, apart]

theorem cleanItems_cons {j : Json} {js : List Json} (clean : cleanItems Text.isUtf8 (j :: js)) :
    j.clean Text.isUtf8 ∧ cleanItems Text.isUtf8 js := by
  rwa [cleanItems, Bool.and_eq_true] at clean

theorem cleanMembers_cons {name : Text} {j : Json} {js : List (Text × Json)}
    (clean : cleanMembers Text.isUtf8 ((name, j) :: js)) : name.isUtf8 ∧ j.clean Text.isUtf8 ∧ cleanMembers Text.isUtf8 js := by
  rwa [cleanMembers, Bool.and_eq_true, Bool.and_eq_true, and_assoc] at clean

/-- How a value begins. -/
theorem write_head {j : Json} (clean : j.clean Text.isUtf8) (level : Nat) :
    ∃ b u, write level j = b :: u ∧ isSpace b = false ∧ b ∉ breaks := by
  match j with
  | null => exact ⟨_, _, rfl, by decide, by decide⟩
  | bool true => exact ⟨_, _, rfl, by decide, by decide⟩
  | bool false => exact ⟨_, _, rfl, by decide, by decide⟩
  | number [] => simp [Json.clean, isNumeral] at clean
  | number (b :: t) =>
    simp only [Json.clean, isNumeral, Bool.and_eq_true, Bool.or_eq_true, decide_eq_true_eq] at clean
    obtain ⟨space, apart, -⟩ := numeral_head clean.1.1
    exact ⟨b, t, rfl, space, apart⟩
  | string t => exact ⟨_, _, rfl, by decide, by decide⟩
  | array [] => exact ⟨_, _, rfl, by decide, by decide⟩
  | array (_ :: _) => exact ⟨_, _, rfl, by decide, by decide⟩
  | object [] => exact ⟨_, _, rfl, by decide, by decide⟩
  | object ((_, _) :: _) => exact ⟨_, _, rfl, by decide, by decide⟩

end Closes

theorem reads_next {b : UInt8} {r : Text} {n : Nat} (other : isSpace b = false) (nonzero : b ≠ 0)
    (steps : 2 ≤ n) : Reads (Holds (b :: r)) (afterSpace n) b (Shows 0 (b :: r)) :=
  reads_afterSpace (s := []) rfl other nonzero steps

theorem reads_expect {b : UInt8} {r : Text} {n : Nat} (other : isSpace b = false) (nonzero : b ≠ 0)
    (steps : 2 ≤ n) : Reads (Holds (b :: r)) (expect n b) () (Holds r) := by
  unfold expect
  refine (reads_next other nonzero steps).bind ?_
  rw [if_pos rfl]
  exact reads_advance

mutual

theorem reads_value : ∀ j, j.clean Text.isUtf8 → ∀ level s r n d, s.all isSpace → j.depth ≤ d → Closes r →
    2 * (s ++ write level j ++ r).length + 1 ≤ n →
      Reads (Holds (s ++ write level j ++ r)) (value n d) j (Holds r)
  | .null, _, level, s, r, n, d, blank, _, _, steps => by
    rw [show s ++ write level .null ++ r = s ++ byte 'n' :: (utf8 "ull" ++ r) by simp; rfl] at steps ⊢
    rw [List.length_append, List.length_cons] at steps
    obtain ⟨n, rfl⟩ : ∃ m, n = m + 1 := ⟨n - 1, by omega⟩
    unfold value
    refine (reads_afterSpace blank (by decide) (by decide) (by omega)).bind ?_
    rw [if_neg (by decide), if_neg (by decide), if_neg (by decide), if_neg (by decide),
      if_neg (by decide), if_neg (by decide), if_pos rfl]
    exact reads_word.bind reads_pure
  | .bool true, _, level, s, r, n, d, blank, _, _, steps => by
    rw [show s ++ write level (.bool true) ++ r = s ++ byte 't' :: (utf8 "rue" ++ r) by simp; rfl]
      at steps ⊢
    rw [List.length_append, List.length_cons] at steps
    obtain ⟨n, rfl⟩ : ∃ m, n = m + 1 := ⟨n - 1, by omega⟩
    unfold value
    refine (reads_afterSpace blank (by decide) (by decide) (by omega)).bind ?_
    rw [if_neg (by decide), if_neg (by decide), if_neg (by decide), if_neg (by decide), if_pos rfl]
    exact reads_word.bind reads_pure
  | .bool false, _, level, s, r, n, d, blank, _, _, steps => by
    rw [show s ++ write level (.bool false) ++ r = s ++ byte 'f' :: (utf8 "alse" ++ r) by simp; rfl]
      at steps ⊢
    rw [List.length_append, List.length_cons] at steps
    obtain ⟨n, rfl⟩ : ∃ m, n = m + 1 := ⟨n - 1, by omega⟩
    unfold value
    refine (reads_afterSpace blank (by decide) (by decide) (by omega)).bind ?_
    rw [if_neg (by decide), if_neg (by decide), if_neg (by decide), if_neg (by decide),
      if_neg (by decide), if_pos rfl]
    exact reads_word.bind reads_pure
  | .number [], clean, _, _, _, _, _, _, _, _, _ => by simp [Json.clean, isNumeral] at clean
  | .number (b :: t), clean, level, s, r, n, d, blank, _, closes, steps => by
    obtain ⟨c, v, rfl, other, nonzero⟩ := closes
    simp only [Json.clean, isNumeral, Bool.and_eq_true, Bool.or_eq_true, decide_eq_true_eq] at clean
    obtain ⟨⟨starts, number⟩, denotes⟩ := clean
    obtain ⟨space, apart, quote, bracket, brace⟩ := numeral_head starts
    simp only [breaks, List.mem_cons, not_or] at apart
    simp only [write, List.append_assoc, List.cons_append, List.length_append, List.length_cons] at steps ⊢
    obtain ⟨n, rfl⟩ : ∃ m, n = m + 1 := ⟨n - 1, by omega⟩
    unfold value
    refine (reads_afterSpace blank space apart.1 (by omega)).bind ?_
    rw [if_neg quote, if_neg bracket, if_neg brace, if_pos (by simpa using starts)]
    refine reads_advance.bind ((reads_numberText number other nonzero (by omega)).bind ?_)
    simp only [denotes, if_true]
    exact (reads_modify fun _ held => held.release).bind reads_pure
  | .string t, clean, level, s, r, n, d, blank, _, _, steps => by
    rw [show s ++ write level (.string t) ++ r =
      s ++ byte '"' :: (t.runes.flatMap escapeRune ++ byte '"' :: r) by simp [write, stringText]] at steps ⊢
    rw [List.length_append, List.length_cons] at steps
    obtain ⟨n, rfl⟩ : ∃ m, n = m + 1 := ⟨n - 1, by omega⟩
    unfold value
    refine (reads_afterSpace blank (by decide) (by decide) (by omega)).bind ?_
    rw [if_pos rfl]
    exact reads_advance.bind ((reads_stringText clean (by omega)).bind reads_pure)
  | .array [], _, level, s, r, n, 0, blank, deep, _, steps => by simp [depth] at deep
  | .array [], _, level, s, r, n, d + 1, blank, _, _, steps => by
    rw [show s ++ write level (.array []) ++ r = s ++ byte '[' :: byte ']' :: r by simp; rfl]
      at steps ⊢
    simp only [List.length_append, List.length_cons] at steps
    obtain ⟨n, rfl⟩ : ∃ m, n = m + 1 := ⟨n - 1, by omega⟩
    unfold value
    refine (reads_afterSpace blank (by decide) (by decide) (by omega)).bind ?_
    rw [if_neg (by decide), if_pos rfl]
    refine reads_advance.bind ((reads_next (by decide) (by decide) (by omega)).bind ?_)
    rw [if_pos rfl]
    exact reads_advance.bind reads_pure
  | .array (item :: items), _, level, s, r, n, 0, blank, deep, _, steps => by simp [depth] at deep
  | .array (item :: items), clean, level, s, r, n, d + 1, blank, deep, _, steps => by
    rw [Json.clean] at clean
    obtain ⟨b, u, begins, space, apart⟩ := write_head (cleanItems_cons clean).1 (level + 1)
    simp only [breaks, List.mem_cons, not_or] at apart
    rw [show s ++ write level (.array (item :: items)) ++ r =
      s ++ byte '[' :: (newline (level + 1) ++ (itemsText level (item :: items) ++ r))
      by simp [write, itemsText]] at steps ⊢
    simp only [List.length_append, List.length_cons] at steps
    obtain ⟨n, rfl⟩ : ∃ m, n = m + 1 := ⟨n - 1, by omega⟩
    have inner := reads_items (item :: items) nofun clean level [] r n d rfl (by simpa [depth] using deep)
      (by simp only [List.length_append, List.nil_append]; omega)
    rw [itemsText, begins] at inner ⊢
    unfold value
    refine (reads_afterSpace blank (by decide) (by decide) (by omega)).bind ?_
    rw [if_neg (by decide), if_pos rfl]
    refine reads_advance.bind ((reads_afterSpace (newline_blank _) space apart.1 (by omega)).bind ?_)
    rw [if_neg apart.2.1]
    exact (inner.of_imp fun _ shows => shows.toHolds).bind reads_pure
  | .object [], _, level, s, r, n, 0, blank, deep, _, steps => by simp [depth] at deep
  | .object [], _, level, s, r, n, d + 1, blank, deep, _, steps => by
    rw [show s ++ write level (.object []) ++ r = s ++ 0x7B :: 0x7D :: r by simp; rfl] at steps ⊢
    simp only [List.length_append, List.length_cons] at steps
    obtain ⟨n, rfl⟩ : ∃ m, n = m + 1 := ⟨n - 1, by omega⟩
    unfold value
    refine (reads_afterSpace blank (by decide) (by decide) (by omega)).bind ?_
    rw [if_neg (by decide), if_neg (by decide), if_pos rfl]
    refine reads_advance.bind ((reads_next (by decide) (by decide) (by omega)).bind ?_)
    rw [if_pos rfl]
    exact reads_advance.bind reads_pure
  | .object (_ :: _), clean, level, s, r, n, 0, blank, deep, _, steps => by
    simp [depth] at deep
  | .object ((name, j) :: members), clean, level, s, r, n, d + 1, blank, deep, _, steps => by
    rw [Json.clean] at clean
    rw [show s ++ write level (.object ((name, j) :: members)) ++ r =
      s ++ 0x7B :: (newline (level + 1) ++ (membersText level ((name, j) :: members) ++ r))
      by simp [write, membersText]] at steps ⊢
    simp only [List.length_append, List.length_cons] at steps
    obtain ⟨n, rfl⟩ : ∃ m, n = m + 1 := ⟨n - 1, by omega⟩
    have inner := reads_members ((name, j) :: members) nofun clean level [] r n d rfl
      (by simpa [depth] using deep) (by simp only [List.length_append, List.nil_append]; omega)
    unfold value
    refine (reads_afterSpace blank (by decide) (by decide) (by omega)).bind ?_
    rw [if_neg (by decide), if_neg (by decide), if_pos rfl]
    refine reads_advance.bind ?_
    refine (reads_afterSpace (b := byte '"') (newline_blank _) (by decide) (by decide) (by omega)).bind ?_
    rw [if_neg (by decide)]
    exact (inner.of_imp fun _ shows => shows.toHolds).bind reads_pure

theorem reads_items : ∀ items, items ≠ [] → cleanItems Text.isUtf8 items → ∀ level s r n d, s.all isSpace →
    depthItems items ≤ d → 2 * (s ++ itemsText level items ++ r).length + 2 ≤ n →
      Reads (Holds (s ++ itemsText level items ++ r)) (Reading.items n d) items (Holds r)
  | [], nonempty, _, _, _, _, _, _, _, _, _ => absurd rfl nonempty
  | [item], _, clean, level, s, r, n, d, blank, deep, steps => by
    obtain ⟨n, rfl⟩ : ∃ m, n = m + 1 := ⟨n - 1, by omega⟩
    rw [depthItems] at deep
    rw [show s ++ itemsText level [item] ++ r =
      s ++ write (level + 1) item ++ (newline level ++ byte ']' :: r) by simp [itemsText, writeItems]]
      at steps ⊢
    have closes : Closes (newline level ++ byte ']' :: r) := closes_cons
    unfold Reading.items
    refine (reads_value item (cleanItems_cons clean).1 (level + 1) s _ n d blank (by omega) closes
      (by omega)).bind ?_
    simp only [List.length_append, List.length_cons] at steps
    refine (reads_afterSpace (newline_blank _) (by decide) (by decide) (by omega)).bind ?_
    rw [if_pos rfl]
    exact reads_advance.bind reads_pure
  | item :: next :: items, _, clean, level, s, r, n, d, blank, deep, steps => by
    obtain ⟨n, rfl⟩ : ∃ m, n = m + 1 := ⟨n - 1, by omega⟩
    rw [depthItems] at deep
    obtain ⟨first, rest⟩ := cleanItems_cons clean
    rw [show s ++ itemsText level (item :: next :: items) ++ r = s ++ write (level + 1) item ++
      (byte ',' :: (newline (level + 1) ++ itemsText level (next :: items) ++ r))
      by simp [itemsText, writeItems]] at steps ⊢
    unfold Reading.items
    refine (reads_value item first (level + 1) s _ n d blank (by omega) closes_cons (by omega)).bind ?_
    simp only [List.length_append, List.length_cons] at steps
    refine (reads_next (by decide) (by decide) (by omega)).bind ?_
    rw [if_neg (by decide), if_pos rfl]
    refine reads_advance.bind ?_
    exact (reads_items (next :: items) nofun rest level _ r n d (newline_blank _) (by omega)
      (by simp only [List.length_append]; omega)).bind reads_pure

theorem reads_members : ∀ members, members ≠ [] → cleanMembers Text.isUtf8 members → ∀ level s r n d, s.all isSpace →
    depthMembers members ≤ d → 2 * (s ++ membersText level members ++ r).length + 2 ≤ n →
      Reads (Holds (s ++ membersText level members ++ r)) (Reading.members n d) members (Holds r)
  | [], nonempty, _, _, _, _, _, _, _, _, _ => absurd rfl nonempty
  | [(name, j)], _, clean, level, s, r, n, d, blank, deep, steps => by
    obtain ⟨n, rfl⟩ : ∃ m, n = m + 1 := ⟨n - 1, by omega⟩
    rw [depthMembers] at deep
    obtain ⟨valid, first, -⟩ := cleanMembers_cons clean
    rw [show s ++ membersText level [(name, j)] ++ r = s ++ stringText name ++ (byte ':' ::
      ([32] ++ write (level + 1) j ++ (newline level ++ 0x7D :: r)))
      by simp [membersText, writeMembers]; rfl] at steps ⊢
    unfold Reading.members
    refine (reads_name blank valid (by omega)).bind ?_
    simp only [List.length_append, List.length_cons] at steps
    refine (reads_expect (by decide) (by decide) (by omega)).bind ?_
    have closes : Closes (newline level ++ 0x7D :: r) := closes_cons
    refine (reads_value j first (level + 1) [32] _ n d rfl (by omega) closes
      (by simp only [List.length_append, List.length_cons]; omega)).bind ?_
    refine (reads_afterSpace (newline_blank _) (by decide) (by decide) (by omega)).bind ?_
    rw [if_pos rfl]
    exact reads_advance.bind reads_pure
  | (name, j) :: next :: members, _, clean, level, s, r, n, d, blank, deep, steps => by
    obtain ⟨n, rfl⟩ : ∃ m, n = m + 1 := ⟨n - 1, by omega⟩
    rw [depthMembers] at deep
    obtain ⟨valid, first, rest⟩ := cleanMembers_cons clean
    rw [show s ++ membersText level ((name, j) :: next :: members) ++ r = s ++ stringText name ++
      (byte ':' :: ([32] ++ write (level + 1) j ++ (byte ',' ::
        (newline (level + 1) ++ membersText level (next :: members) ++ r))))
      by simp [membersText, writeMembers]; rfl] at steps ⊢
    unfold Reading.members
    refine (reads_name blank valid (by omega)).bind ?_
    simp only [List.length_append, List.length_cons] at steps
    refine (reads_expect (by decide) (by decide) (by omega)).bind ?_
    refine (reads_value j first (level + 1) [32] _ n d rfl (by omega) closes_cons
      (by simp only [List.length_append, List.length_cons]; omega)).bind ?_
    refine (reads_next (by decide) (by decide) (by omega)).bind ?_
    rw [if_neg (by decide), if_pos rfl]
    refine reads_advance.bind ?_
    exact (reads_members (next :: members) nofun rest level _ r n d (newline_blank _) (by omega)
      (by simp only [List.length_append]; omega)).bind reads_pure

end

section Nonzero

theorem nonzero_hex (width n : Nat) : 0 ∉ Text.hex width n := by
  induction width generalizing n with
  | zero => exact List.not_mem_nil
  | succ width ih =>
    have digit : Text.hexDigit n ≠ 0 := by
      have all : ∀ d < 16, Text.hexDigit d ≠ 0 := by decide
      have same : Text.hexDigit n = Text.hexDigit (n % 16) := by
        unfold Text.hexDigit
        rw [Nat.mod_mod]
      rw [same]
      exact all _ (Nat.mod_lt _ (by decide))
    rw [Text.hex, List.mem_append, List.mem_singleton, not_or]
    exact ⟨ih _, digit.symm⟩

theorem nonzero_escapePoint (n : Nat) : 0 ∉ escapePoint n := by
  unfold escapePoint
  split
  next special =>
    simp only [Bool.or_eq_true, decide_eq_true_eq] at special
    rcases special with rfl | rfl <;> decide
  next =>
  split
  next => decide
  next =>
  split
  next => decide
  next =>
  split
  next => decide
  next =>
  split
  next =>
    rw [List.mem_append, not_or]
    exact ⟨by decide, nonzero_hex _ _⟩
  next unmarked =>
    simp only [Bool.or_eq_true, decide_eq_true_eq, not_or] at unmarked
    rcases Rune.encode_bytes n with ⟨single, small⟩ | large
    · rw [single, List.mem_singleton]
      intro zero
      have value := congrArg UInt8.toNat zero
      rw [Nat.toUInt8_eq, UInt8.toNat_ofNat', UInt8.toNat_zero] at value
      omega
    · intro zero
      have high := large 0 zero
      simp at high

theorem nonzero_stringText (t : Text) : 0 ∉ stringText t := by
  have runes : ∀ rs : List Rune, 0 ∉ rs.flatMap escapeRune := by
    intro rs held
    obtain ⟨r, -, inner⟩ := List.mem_flatMap.mp held
    cases r with
    | point n => exact nonzero_escapePoint n inner
    | stray b => exact absurd inner (by rw [escapeRune]; decide)
  simp only [stringText, List.mem_append, List.mem_cons, not_or]
  exact ⟨⟨by decide, runes _⟩, by decide⟩

theorem nonzero_newline (level : Nat) : 0 ∉ newline level := by
  simp [newline]

theorem nonzero_numeral {t : Text} (number : isNumeral t) : 0 ∉ t := by
  cases t with
  | nil => exact List.not_mem_nil
  | cons b t =>
    simp only [isNumeral, Bool.and_eq_true, Bool.or_eq_true, decide_eq_true_eq] at number
    obtain ⟨-, apart, -⟩ := numeral_head number.1
    simp only [breaks, List.mem_cons, not_or] at apart
    rw [List.mem_cons, not_or]
    refine ⟨Ne.symm apart.1, fun zero => ?_⟩
    have plain := List.all_eq_true.mp number.2 0 zero
    revert plain
    decide

mutual

theorem nonzero_write : ∀ j, j.clean Text.isUtf8 → ∀ level, 0 ∉ write level j
  | .null, _, _ => by rw [write]; decide
  | .bool b, _, _ => by rw [write]; cases b <;> decide
  | .number t, clean, _ => by
    rw [Json.clean, Bool.and_eq_true] at clean
    exact nonzero_numeral clean.1
  | .string t, _, _ => nonzero_stringText t
  | .array [], _, _ => by rw [write]; decide
  | .array (item :: items), clean, level => by
    obtain ⟨first, rest⟩ := cleanItems_cons clean
    simp only [write, List.mem_append, List.mem_cons, not_or]
    exact ⟨⟨⟨by decide, nonzero_newline _⟩, nonzero_write item first _⟩, nonzero_items items rest _⟩
  | .object [], _, _ => by rw [write]; decide
  | .object ((name, j) :: members), clean, level => by
    obtain ⟨-, first, rest⟩ := cleanMembers_cons clean
    simp only [write, List.mem_append, List.mem_cons, not_or]
    exact ⟨⟨⟨⟨⟨by decide, nonzero_newline _⟩, nonzero_stringText _⟩, by decide⟩, nonzero_write j first _⟩,
      nonzero_members members rest _⟩

theorem nonzero_items : ∀ items, cleanItems Text.isUtf8 items → ∀ level, 0 ∉ writeItems level items
  | [], _, level => by
    rw [writeItems, List.mem_append, not_or]
    exact ⟨nonzero_newline _, by decide⟩
  | item :: items, clean, level => by
    obtain ⟨first, rest⟩ := cleanItems_cons clean
    simp only [writeItems, List.mem_append, List.mem_cons, not_or]
    exact ⟨⟨⟨by decide, nonzero_newline _⟩, nonzero_write item first _⟩, nonzero_items items rest _⟩

theorem nonzero_members : ∀ members, cleanMembers Text.isUtf8 members →
    ∀ level, 0 ∉ writeMembers level members
  | [], _, level => by
    rw [writeMembers, List.mem_append, not_or]
    exact ⟨nonzero_newline _, by decide⟩
  | (name, j) :: members, clean, level => by
    obtain ⟨-, first, rest⟩ := cleanMembers_cons clean
    simp only [writeMembers, List.mem_append, List.mem_cons, not_or]
    exact ⟨⟨⟨⟨⟨by decide, nonzero_newline _⟩, nonzero_stringText _⟩, by decide⟩, nonzero_write j first _⟩,
      nonzero_members members rest _⟩

end

end Nonzero

/-- A written document starts with its value, of which the reader then has the whole text before it. -/
theorem first_document {j : Json} (clean : j.clean Text.isUtf8) {n : Nat} (steps : 2 ≤ n) :
    ∃ w, Holds j.document w ∧ (first n).run (.ofText j.document) = (value n maxDepth).run w := by
  obtain ⟨b, u, begins, space, apart⟩ := write_head clean 0
  simp only [breaks, List.mem_cons, not_or] at apart
  have nonzero : 0 ∉ j.document := by
    rw [document, List.mem_append, not_or]
    exact ⟨nonzero_write j clean 0, by decide⟩
  have text : j.document = b :: (u ++ [10]) := by rw [document, begins, List.cons_append]
  have held := holds_ofText nonzero
  rw [text] at held ⊢
  obtain ⟨w, run, shows⟩ := reads_next space apart.1 steps _ held
  refine ⟨w, shows.toHolds, ?_⟩
  unfold first
  rw [run_of_eq_some run, if_neg]
  simp [apart]

/-- A clean value that is written is read back, unless it nests too deep; then nothing is read. -/
theorem read?_document {j : Json} (clean : j.clean Text.isUtf8) :
    read? j.document = if j.depth ≤ maxDepth then some j else none := by
  have steps : 2 * j.document.length + 2 ≤ stepBound j.document := by
    have positive : 0 < j.document.length + 2 := by omega
    have factor := Nat.le_mul_of_pos_left (4 * j.document.length + 4 * Window.startSize) positive
    simp only [stepBound, Window.startSize] at factor ⊢
    omega
  obtain ⟨w, held, same⟩ := first_document clean (Nat.le_of_add_left_le steps)
  have reads : ∀ d, j.depth ≤ d → ∃ w', (value (stepBound j.document) d).run w = some (j, w') := by
    intro d deep
    obtain ⟨w', run, -⟩ := reads_value j clean 0 [] [10] (stepBound j.document) d rfl deep closes_cons
      (by simpa [document] using Nat.le_of_succ_le steps) w held
    exact ⟨w', run⟩
  unfold read?
  rw [same]
  split
  next deep =>
    obtain ⟨w', run⟩ := reads _ deep
    rw [run]
    rfl
  next deep =>
    cases run : (value (stepBound j.document) maxDepth).run w with
    | none => rfl
    | some found =>
      obtain ⟨other, w'⟩ := found
      have within := (within_all _).1 run
      obtain ⟨w'', run'⟩ := reads j.depth (Nat.le_refl _)
      rw [within.deeper j.depth (by omega)] at run'
      cases run'
      exact absurd within.depth deep

/-- The codec of streams is faithful as deep as its reader goes. -/
theorem Codec.stream_faithful : stream.Faithful maxDepth where
  numeric _ _ read := (read?_within read).1
  read_write _ clean shallow := (read?_document clean).trans (if_pos shallow)
  too_deep _ clean deep := (read?_document clean).trans (if_neg (Nat.not_le.mpr deep))

end CellScript.Json
