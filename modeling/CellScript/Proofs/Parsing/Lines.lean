import CellScript.Proofs.Parsing.Extension
import CellScript.Proofs.Lexing.Lexemes

/-! The tokens of a text stay the same when another line follows, and for tokens of many kinds there is a
line that spells them. -/
namespace CellScript.Lexer

open CellScript.Parser (writable)

variable {b : UInt8} {t u : Text} {l : Lexeme} {p : Position} {afterDot : Bool}

section Following

variable {gap rest : Text} {n : Nat} {ts : Tokens}

theorem readFrom_blank_followed (found : splitGap false t = (gap, [])) :
    readFrom n p afterDot (t ++ 10 :: u) = readFrom n ((p.after gap).next 10) afterDot u := by
  rw [← readFrom_space (by decide)]
  apply readFrom_skip
  rw [splitGap_followed, found, splitGap_space (by decide)]

/-- The tokens of a text, then those of the line that follows it. -/
theorem readFrom_followed (read : readFrom n p afterDot t = .ok ts) :
    ∃ spare dot, ∀ m u, readFrom (n + m) p afterDot (t ++ 10 :: u) =
      (readFrom (spare + m) (ts.stop.next 10) dot u).map fun us => ⟨ts.tokens ++ us.tokens, us.stop⟩ := by
  induction n generalizing p afterDot t ts with
  | zero =>
    obtain ⟨gap, found, rfl⟩ | ⟨gap, b, rest, l, m, us, -, -, impossible, -⟩ := readFrom_eq_ok read
    · refine ⟨0, afterDot, fun m u => ?_⟩
      rw [readFrom_blank_followed found]
      cases readFrom (0 + m) ((p.after gap).next 10) afterDot u <;> rfl
    · cases impossible
  | succ n ih =>
    obtain ⟨gap, found, rfl⟩ | ⟨gap, b, rest, l, m, us, found, first, same, later, rfl⟩ := readFrom_eq_ok read
    · refine ⟨n + 1, afterDot, fun m u => ?_⟩
      rw [readFrom_blank_followed found]
      cases readFrom (n + 1 + m) ((p.after gap).next 10) afterDot u <;> rfl
    · cases same
      obtain ⟨spare, dot, followed⟩ := ih later
      refine ⟨spare, dot, fun m u => ?_⟩
      have gap' : splitGap false (t ++ 10 :: u) = (gap, b :: (rest ++ 10 :: u)) := by
        rw [splitGap_followed, found]
      rw [Nat.add_right_comm, readFrom_lexeme gap' (lexeme_followed (by decide) first), ← List.cons_append,
        drop_followed (lexeme_begins first), followed]
      cases readFrom (spare + m) (us.stop.next 10) dot u <;> rfl

end Following

section Spelling

/-- A text for a token of the kind. All names are the same, and literals have none. -/
def spell : Token.Kind → Text
  | .keyword k => Vocabulary.spelling k
  | .mark m => Vocabulary.spelling m
  | .name => [byte 'x']
  | .integer | .real | .string | .endOfInput => []

def line (kinds : List Token.Kind) : Text := kinds.flatMap fun kind => spell kind ++ [32]

@[simp] theorem line_nil : line [] = [] := rfl

@[simp] theorem line_cons {kind : Token.Kind} {kinds : List Token.Kind} :
    line (kind :: kinds) = spell kind ++ 32 :: line kinds := by
  simp [line]

/-- Letters are read up to the blank. -/
theorem lexeme_word (quotes : ¬ (b = byte '"' || b = 39)) (digit : ¬ Text.isDigit b) (starts : Text.isNameStart b)
    (parts : (b :: t).all Text.isNamePart) :
    lexeme afterDot b (t ++ 32 :: u) =
      .ok (.plain ((Vocabulary.ofText? (b :: t)).elim .name .keyword) (b :: t)) := by
  have word : (b :: (t ++ 32 :: u)).takeWhile Text.isNamePart = b :: t := by
    rw [← List.cons_append, List.takeWhile_append_of_pos (List.all_eq_true.mp parts),
      List.takeWhile_cons_of_neg (by decide), List.append_nil]
  simp only [lexeme, if_neg quotes, if_neg digit, if_pos starts, word]
  cases (Vocabulary.ofText? (b :: t) : Option Keyword) <;> rfl

theorem lexeme_mark {m : Mark} (spelt : Vocabulary.spelling m = b :: t) :
    lexeme afterDot b (t ++ 32 :: u) = .ok (.plain (.mark m) (b :: t)) := by
  rw [Lexeme.plain, ← spelt]
  cases m <;> cases spelt <;> rfl

theorem lexeme_spell {kind : Token.Kind} (written : writable kind) (spelt : spell kind = b :: t) :
    lexeme afterDot b (t ++ 32 :: u) = .ok (.plain kind (b :: t)) := by
  cases kind with
  | keyword k =>
    have facts : (¬ (b = byte '"' || b = 39) ∧ ¬ Text.isDigit b ∧ Text.isNameStart b ∧
        (b :: t).all Text.isNamePart) ∧ Vocabulary.ofText? (b :: t) = some k := by
      cases k <;> cases spelt <;> decide
    obtain ⟨⟨quotes, digit, starts, parts⟩, word⟩ := facts
    rw [lexeme_word quotes digit starts parts, word]
    rfl
  | name =>
    cases spelt
    exact lexeme_word (by decide) (by decide) (by decide) (by decide)
  | mark m => exact lexeme_mark spelt
  | integer | real | string | endOfInput => cases written

theorem splitGap_spell {kind : Token.Kind} (written : writable kind) :
    splitGap false (spell kind ++ 32 :: u) = ([], spell kind ++ 32 :: u) := by
  cases kind with
  | keyword k => cases k <;> rfl
  | name => rfl
  | mark m => cases m <;> rfl
  | integer | real | string | endOfInput => cases written

theorem spell_ne_nil {kind : Token.Kind} (written : writable kind) : spell kind ≠ [] := by
  cases kind with
  | keyword k => cases k <;> decide
  | name => decide
  | mark m => cases m <;> decide
  | integer | real | string | endOfInput => cases written

theorem newline_not_mem_spell {kind : Token.Kind} : 10 ∉ spell kind := by
  cases kind with
  | keyword k => cases k <;> decide
  | mark m => cases m <;> decide
  | name | integer | real | string | endOfInput => decide

theorem newline_not_mem_line {kinds : List Token.Kind} : 10 ∉ line kinds := by
  simp [line, newline_not_mem_spell]

theorem length_le_line {kinds : List Token.Kind} : kinds.length ≤ (line kinds).length := by
  induction kinds with
  | nil => exact Nat.le_refl _
  | cons kind kinds ih =>
    simp only [line_cons, List.length_cons, List.length_append]
    omega

/-- The lexer reads the tokens that a line spells. -/
theorem readFrom_line {n : Nat} {kinds : List Token.Kind} (written : kinds.all writable)
    (enough : kinds.length ≤ n) :
    ∃ ts, readFrom n p afterDot (line kinds) = .ok ts ∧ ts.tokens.map (·.kind) = kinds := by
  induction kinds generalizing n p afterDot with
  | nil => exact ⟨_, readFrom_blank rfl, rfl⟩
  | cons kind kinds ih =>
    obtain ⟨first, others⟩ : writable kind ∧ kinds.all writable := by simpa using written
    obtain ⟨n, rfl⟩ : ∃ m, n = m + 1 := Nat.exists_eq_add_one.mpr (Nat.zero_lt_of_lt enough)
    obtain ⟨b, t, spelt⟩ := List.exists_cons_of_ne_nil (spell_ne_nil first)
    have gap := splitGap_spell (u := line kinds) first
    obtain ⟨ts, later, same⟩ : ∃ ts, readFrom n ((p.after (b :: t)).next 32) (kind == .mark .dot) (line kinds) =
        .ok ts ∧ ts.tokens.map (·.kind) = kinds := ih others (Nat.le_of_succ_le_succ enough)
    rw [← readFrom_space (by decide)] at later
    rw [spelt, List.cons_append] at gap
    rw [line_cons, spelt, List.cons_append, readFrom_lexeme gap (lexeme_spell first spelt)]
    have rest : (b :: (t ++ 32 :: line kinds)).drop (b :: t).length = 32 :: line kinds := by simp
    simp only [Lexeme.plain, Position.after_nil, rest, later]
    exact ⟨_, rfl, by simp [same]⟩

end Spelling

/-- A text, a line end and a line of tokens: the tokens of the text, then those. -/
theorem read_line {entry : Text} {ts : Tokens} {kinds : List Token.Kind} (known : read entry = .ok ts)
    (written : kinds.all writable) :
    ∃ us stop, read (entry ++ 10 :: line kinds) = .ok ⟨ts.tokens ++ us, stop⟩ ∧ us.map (·.kind) = kinds := by
  obtain ⟨spare, dot, followed⟩ := readFrom_followed known
  have enough : kinds.length ≤ spare + ((line kinds).length + 1) := by
    have short : kinds.length ≤ (line kinds).length := length_le_line
    omega
  obtain ⟨us, later, same⟩ : ∃ us, readFrom (spare + ((line kinds).length + 1)) (ts.stop.next 10) dot (line kinds) =
      .ok us ∧ us.tokens.map (·.kind) = kinds := readFrom_line written enough
  refine ⟨us.tokens, us.stop, ?_, same⟩
  rw [read, List.length_append, List.length_cons, followed, later]
  rfl

/-- The first lines of a text hold its first tokens, unless they are no tokens. -/
theorem read_beginning {entry more : Text} {ts whole : Tokens} (known : read entry = .ok ts)
    (all : read (entry ++ 10 :: more) = .ok whole) : ∃ us, whole.tokens = ts.tokens ++ us := by
  obtain ⟨spare, dot, followed⟩ := readFrom_followed known
  rw [read, List.length_append, List.length_cons, followed] at all
  cases later : readFrom (spare + (more.length + 1)) (ts.stop.next 10) dot more with
  | error e =>
    rw [later] at all
    cases all
  | ok us =>
    rw [later] at all
    cases all
    exact ⟨us.tokens, rfl⟩

end CellScript.Lexer
