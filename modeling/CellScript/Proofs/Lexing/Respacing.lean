import CellScript.Proofs.Lexing.Lexemes
import CellScript.Proofs.Places

/-! Layout is insignificant. The text of a token, read alone or before a blank, is that token again, so the
tokens of a source can be written anew with any blanks between them. -/
namespace CellScript

/-- What a token is without its place. -/
def Token.content (t : Token) : Token.Kind × Text := (t.kind, t.value)

namespace Lexer

/-- The texts one after another, each with its separator behind it as long as there are any. -/
def respaced : List Text → List Text → Text
  | x :: xs, sep :: seps => x ++ sep ++ respaced xs seps
  | xs, _ => xs.flatten

variable {b : UInt8} {t u gap rest : Text} {l : Lexeme} {afterDot : Bool} {n : Nat} {p : Position} {ts : Tokens}

theorem readFrom_blanks {sep : Text} (blank : sep.all isSpace) :
    readFrom n p afterDot (sep ++ t) = readFrom n (p.after sep) afterDot t := by
  induction sep generalizing p with
  | nil => rfl
  | cons b sep ih =>
    obtain ⟨space, more⟩ : isSpace b ∧ sep.all isSpace := by simpa using blank
    rw [List.cons_append, readFrom_space space, ih more, Position.after_cons]

/-- The text of a token that was found behind a gap starts no gap itself. -/
theorem splitGap_lexeme (found : splitGap false t = (gap, b :: rest)) (first : lexeme afterDot b rest = .ok l)
    (apart : ∀ e ∈ u.head?, isSpace e) : splitGap false (l.source ++ u) = ([], l.source ++ u) := by
  obtain ⟨s, source⟩ := exists_lexeme first
  obtain ⟨solid, code⟩ := splitGap_stops found
  have begins : s <+: rest := by
    have begins := lexeme_begins first
    rw [source] at begins
    exact (List.cons_prefix_cons.mp begins).2
  have code : ¬(b == byte '/' && (s ++ u).head? == some (byte '/')) := by
    match s, begins with
    | c :: s, ⟨tail, whole⟩ =>
      subst whole
      exact code
    | [], _ =>
      have other : u.head? ≠ some (byte '/') := fun slash => absurd (apart _ slash) (by decide)
      simp [other]
  rw [source, List.cons_append, splitGap, if_neg Bool.false_ne_true, if_neg solid, if_neg code]

/-- A token of a text is read again from its own text, alone or before a blank. -/
theorem readFrom_again (found : splitGap false t = (gap, b :: rest)) (first : lexeme afterDot b rest = .ok l)
    (apart : ∀ e ∈ u.head?, isSpace e) :
    readFrom (n + 1) p afterDot (l.source ++ u) =
      (readFrom n (p.after l.source) (l.kind == .mark .dot) u).map
        fun ts => ⟨⟨l.kind, l.value, p, p.after l.source⟩ :: ts.tokens, ts.stop⟩ := by
  obtain ⟨s, source, alone⟩ := lexeme_alone first
  have again : lexeme afterDot b (s ++ u) = .ok l := by
    cases u with
    | nil => rwa [List.append_nil]
    | cons e u => exact lexeme_followed (apart e rfl) alone
  have start : splitGap false (l.source ++ u) = ([], b :: (s ++ u)) := by
    rw [splitGap_lexeme found first apart, source, List.cons_append]
  rw [readFrom_lexeme start again, ← List.cons_append, ← source, List.drop_left]
  rfl

/-- The texts of the tokens are those that the source has at their places, so the induction keeps what stands
before the text that is left. -/
theorem Lexes.respaced {p : Position} (reads : Lexes p afterDot t ts) {s : Text} (here : p = .behind s)
    {seps : List Text} (blank : ∀ sep ∈ seps, sep ≠ [] ∧ sep.all isSpace)
    (enough : ts.tokens.length ≤ seps.length + 1) {m : Nat}
    (steps : (respaced (ts.tokens.map (·.span.covered (s ++ t))) seps).length ≤ m) (q : Position) :
    ∃ us, readFrom m q afterDot (Lexer.respaced (ts.tokens.map (·.span.covered (s ++ t))) seps) = .ok us ∧
      us.tokens.map Token.content = ts.tokens.map Token.content := by
  induction reads generalizing s seps m q with
  | last found =>
    have none : Lexer.respaced [] seps = [] := by cases seps <;> rfl
    exact ⟨⟨[], q⟩, by rw [List.map_nil, none, readFrom_nil], rfl⟩
  | @token p afterDot t gap rest tail b l ts found first whole more ih =>
    subst here whole
    have long : 0 < l.source.length := by
      obtain ⟨c, some⟩ := exists_lexeme first
      simp [some]
    have split : s ++ (gap ++ l.source ++ tail) = s ++ gap ++ l.source ++ tail := by simp
    simp only [List.map_cons, split, Position.after_behind, Span.covered_behind] at steps ih ⊢
    obtain ⟨m, rfl⟩ : ∃ k, m = k + 1 := by
      apply Nat.exists_eq_add_one.mpr
      cases seps <;> simp [Lexer.respaced] at steps <;> omega
    match seps with
    | [] =>
      have none : ts.tokens = [] := List.length_eq_zero_iff.mp (by simpa using enough)
      have alone : Lexer.respaced [l.source] [] = l.source ++ [] := rfl
      rw [none, List.map_nil, alone, readFrom_again found first (by simp), readFrom_nil]
      exact ⟨_, rfl, rfl⟩
    | sep :: seps =>
      obtain ⟨⟨solid, spaces⟩, others⟩ := List.forall_mem_cons.mp blank
      obtain ⟨e, v, rfl⟩ := List.exists_cons_of_ne_nil solid
      have space : isSpace e := List.all_eq_true.mp spaces e List.mem_cons_self
      have enough : ts.tokens.length ≤ seps.length + 1 := by simpa using enough
      rw [Lexer.respaced, List.append_assoc] at steps ⊢
      obtain ⟨us, again, same⟩ := ih rfl others enough (m := m)
        (by rw [List.length_append, List.length_append] at steps; omega)
        ((q.after l.source).after (e :: v))
      rw [readFrom_again found first (by simpa using space), readFrom_blanks spaces, again]
      exact ⟨_, rfl, by simp [same, Token.content]⟩

/-- Layout is insignificant: the texts of the tokens of a source, written with any blanks between them, have
the same tokens. -/
theorem tokens_ignore_layout {source : Text} {ts : Tokens} (known : read source = .ok ts) {seps : List Text}
    (blank : ∀ sep ∈ seps, sep ≠ [] ∧ sep.all isSpace) (enough : ts.tokens.length ≤ seps.length + 1) :
    ∃ us, read (respaced (ts.tokens.map (·.span.covered source)) seps) = .ok us ∧
      us.toList.map Token.content = ts.toList.map Token.content := by
  obtain ⟨us, again, same⟩ := (readFrom_lexes known).respaced (s := []) rfl blank enough le_rfl .origin
  exact ⟨us, again, by simp [Tokens.toList, ← same, Token.content]⟩

namespace Example

/-- Dots between digits, a number with an exponent, a mark of two bytes, a string that holds slashes, and a
comment at the end. -/
def crowded : Text := utf8 "t.1.2+1.5e3<='a // b'//end"

end Example

open Example in
/-- The eight separators of nine tokens can be line ends. -/
theorem tokens_ignore_layout_crowded :
    ∃ ts us, read crowded = .ok ts ∧ ts.tokens.length = 9 ∧
      read (respaced (ts.tokens.map (·.span.covered crowded)) (List.replicate 8 [10])) = .ok us ∧
      us.toList.map Token.content = ts.toList.map Token.content := by
  have nine : (read crowded).toOption.map (·.tokens.length) = some 9 := by decide +kernel
  cases known : read crowded with
  | error e =>
    rw [known] at nine
    cases nine
  | ok ts =>
    have nine : ts.tokens.length = 9 := by
      rw [known] at nine
      exact Option.some.inj nine
    have blank : ∀ sep ∈ List.replicate 8 [10], sep ≠ [] ∧ sep.all isSpace := fun sep member => by
      rw [List.eq_of_mem_replicate member]
      exact ⟨List.cons_ne_nil _ _, by decide⟩
    obtain ⟨us, again, same⟩ := tokens_ignore_layout known blank (by rw [nine, List.length_replicate])
    exact ⟨ts, us, rfl, nine, again, same⟩

end Lexer

end CellScript
