import CellScript.Proofs.Parsing.Derivation
import CellScript.Proofs.Parsing.Lines
import CellScript.Proofs.Parsing.Prefixes
import CellScript.Proofs.Parsing.Supply
import CellScript.Repl

/-! Programs in parts. The first tokens of a program are a program, or the error says that the input is
incomplete; but where the parser looks two tokens ahead, the error can blame the last token. And what is said
to be incomplete some further tokens make a program. -/
namespace CellScript.Parser

variable {ts : Lexer.Tokens} {e : Error}

/-- The statements of a program start where its first token is left to be read, or at the end of input. -/
theorem verdict_of_fails (fails : parseTokens ts = .error e) :
    e.incomplete ∧ Unfinished [.endOfInput] (statements · [.endOfInput]) (.ofTokens ts) ∨
      Halved ts.tokens e ∨
      e.incomplete = false ∧ Refuses (16 * (ts.tokens.length + 1)) (statements · [.endOfInput]) (.ofTokens ts) := by
  have resumable := (whole (16 * (ts.tokens.length + 1))).statements
    (by decide : [Token.Kind.endOfInput] ⊆ closers)
  have fails' := parseTokens_eq_error.mp fails
  have lasts := parseTokens_lasts fails
  by_cases none : ts.tokens = []
  · have incomplete := (resumable.ends _ e none fails').resolve_left lasts
    exact .inl ⟨incomplete, resumable.reads.unfinished rfl none⟩
  · cases (resumable.steady _ none).verdict fails' with
    | starved cause => exact absurd cause lasts
    | unfinished incomplete more => exact .inl ⟨incomplete, more⟩
    | halved last => exact .inr (.inl last)
    | refused complete always => exact .inr (.inr ⟨complete, always⟩)

/-- The statements of an accepted program are read with any number of steps from some on. -/
theorem statements_of_accepted {p : Program} (accepted : parseTokens ts = .ok p) :
    ∃ ss d m, ∀ k, m ≤ k → Gives (statements k [.endOfInput]) (.ofTokens ts) ss d := by
  obtain ⟨ss, d, parses, stop, -⟩ := parseTokens_eq_ok.mp accepted
  exact ⟨ss, d, _, fun k more => reached_of_parses parses k _ (by decide) (by simpa [Phrase.Closed] using stop) more⟩

theorem accepted_of_completes
    (completes : Completes (statements · [.endOfInput]) (.ofTokens ts) []) : ∃ p, parseTokens ts = .ok p := by
  obtain ⟨ss, d, left, m, gives⟩ := completes
  have parses := understood (m + 1) m m.lt_succ_self [.endOfInput] (by decide) (.statements ss) _ _
    (gives m m.le_refl)
  exact ⟨_, parseTokens_eq_ok.mpr ⟨ss, d, parses, d.kindAt_end left, rfl⟩⟩

theorem incomplete_or_halved {p : Program} (accepted : parseTokens ts = .ok p) {front back : List Token}
    (cut : ts.tokens = front ++ back) (stop : Position) (fails : parseTokens ⟨front, stop⟩ = .error e) :
    e.incomplete ∨ Halved front e := by
  obtain ⟨incomplete, -⟩ | halved | ⟨-, refused⟩ := verdict_of_fails fails
  · exact .inl incomplete
  · exact .inr halved
  obtain ⟨ss, d, m, gives⟩ := statements_of_accepted accepted
  obtain ⟨e', fails'⟩ := refused _ back ts.endSpan (Nat.le_max_left _ m)
  have same : (Cursor.ofTokens ⟨front, stop⟩).followed back ts.endSpan = .ofTokens ts := by
    rw [Cursor.ofTokens, Cursor.ofTokens, cut]
    rfl
  rw [same] at fails'
  exact absurd fails' (gives _ (Nat.le_max_right _ m)).not_fails

/-- Tokens of some kinds, whatever their texts and places, complete an incomplete input. -/
theorem completed_of_incomplete (fails : parseTokens ts = .error e) (incomplete : e.incomplete) :
    ∃ kinds : List Token.Kind, kinds ≠ [] ∧ kinds.all writable ∧ ∀ us stop, us.map (·.kind) = kinds →
      ∃ p, parseTokens ⟨ts.tokens ++ us, stop⟩ = .ok p := by
  obtain ⟨-, kinds, written, more⟩ | ⟨t, -, -, ⟨-, cause⟩ | ⟨-, cause⟩⟩ | ⟨complete, -⟩ := verdict_of_fails fails
  · have accepted (us : List Token) (stop : Position) (same : us.map (·.kind) = kinds) :
        ∃ p, parseTokens ⟨ts.tokens ++ us, stop⟩ = .ok p := by
      have completes := more us [] ⟨stop, stop⟩ same (by decide)
      rw [List.append_nil] at completes
      exact accepted_of_completes completes
    refine ⟨kinds, ?_, written, accepted⟩
    rintro rfl
    obtain ⟨p, whole⟩ := accepted [] ts.stop rfl
    rw [List.append_nil] at whole
    rw [whole] at fails
    cases fails
  · rw [Error.incomplete, cause] at incomplete
    cases incomplete
  · rw [Error.incomplete, cause] at incomplete
    cases incomplete
  · rw [complete] at incomplete
    cases incomplete

theorem parse_eq_ok {source : Text} {p : Program} :
    parse source = .ok p ↔ ∃ ts, Lexer.read source = .ok ts ∧ parseTokens ts = .ok p := by
  unfold parse
  cases Lexer.read source <;> simp

end CellScript.Parser

namespace CellScript.Repl

open CellScript.Parser (parse parseTokens)

theorem isUnfinished_eq_true {entry : Text} :
    isUnfinished entry ↔ ∃ ts e, Lexer.read entry = .ok ts ∧ parseTokens ts = .error e ∧ e.incomplete := by
  unfold isUnfinished parse
  cases Lexer.read entry with
  | error e => simp [Parser.Error.incomplete]
  | ok ts => cases parsed : parseTokens ts <;> simp [parsed]

theorem readEntry_of_parse {entry line : Text} {editor answered : Editor} {steps : Nat} {p : Program}
    (unfinished : isUnfinished entry) (answer : editor.prompt morePrompt = (some (.text line), answered))
    (accepted : parse (entry ++ 10 :: line) = .ok p) :
    readEntry (steps + 1) editor entry = (some (entry ++ 10 :: line), answered) := by
  have some : entry.isEmpty = false := by
    cases entry with
    | nil => exact absurd unfinished (by decide +kernel)
    | cons => rfl
  have finished : isUnfinished (entry ++ 10 :: line) = false := by rw [isUnfinished, accepted]
  simp [readEntry, some, answer, finished]

end CellScript.Repl

namespace CellScript.Parser

namespace Example

def pair : Lexer.Tokens :=
  ⟨[⟨.keyword .varWord, [], .zero⟩, ⟨.name, [97], .zero⟩, ⟨.mark .comma, [44], .zero⟩, ⟨.name, [98], .zero⟩],
    .origin⟩

/-- Its beginning up to the comma, which the parser takes for a whole input with a mistake. -/
def cut : List Token := pair.tokens.take 3

theorem pair_accepted : ∃ p, parseTokens pair = .ok p := exists_of_isOk (by decide +kernel)

theorem exists_complete_error {result : Except Error Program}
    (fails : (match result with
      | .ok _ => true
      | .error e => e.incomplete) = false) : ∃ e, result = .error e ∧ e.incomplete = false := by
  cases result with
  | ok => cases fails
  | error e => exact ⟨e, rfl, fails⟩

theorem cut_fails : ∃ e, parseTokens ⟨cut, .origin⟩ = .error e ∧ e.incomplete = false :=
  exists_complete_error (by decide +kernel)

end Example

/-- The first tokens of a program are a program or incomplete, unless the last of them is blamed because the
next one is missing; and so are the first lines, cut between two tokens. -/
theorem beginnings_unfinished (e : Error) :
    (∀ (ts : Lexer.Tokens) p front back stop, parseTokens ts = .ok p → ts.tokens = front ++ back →
      parseTokens ⟨front, stop⟩ = .error e → e.incomplete ∨ Halved front e) ∧
    ∀ entry more p ts, parse (entry ++ 10 :: more) = .ok p → Lexer.read entry = .ok ts →
      parse entry = .error e → e.incomplete ∨ Halved ts.tokens e := by
  constructor
  · intro ts p front back stop accepted cut fails
    exact incomplete_or_halved accepted cut stop fails
  · intro entry more p ts accepted known fails
    obtain ⟨whole, all, accepted⟩ := parse_eq_ok.mp accepted
    obtain ⟨us, cut⟩ := Lexer.read_beginning known all
    rw [parse, known] at fails
    exact incomplete_or_halved accepted cut ts.stop fails

open CellScript.Parser.Example in
/-- A declaration of two names is a program, and cut after its comma a mistake. -/
theorem pair_cut_refused :
    ∃ p e, parseTokens pair = .ok p ∧ pair.tokens = cut ++ [⟨.name, [98], .zero⟩] ∧
      parseTokens ⟨cut, .origin⟩ = .error e ∧ e.incomplete = false := by
  obtain ⟨p, accepted⟩ := pair_accepted
  obtain ⟨e, fails, complete⟩ := cut_fails
  exact ⟨p, e, accepted, rfl, fails, complete⟩

open CellScript.Parser.Example in
/-- That mistake blames the comma, also where a line ends after it. -/
theorem beginnings_unfinished_pair :
    (∃ e, parseTokens ⟨cut, .origin⟩ = .error e ∧ (e.incomplete ∨ Halved cut e)) ∧
      ∃ ts e, Lexer.read (utf8 "var a,") = .ok ts ∧ parse (utf8 "var a,") = .error e ∧
        (e.incomplete ∨ Halved ts.tokens e) := by
  constructor
  · obtain ⟨p, accepted⟩ := pair_accepted
    obtain ⟨e, fails, -⟩ := cut_fails
    exact ⟨e, fails, (beginnings_unfinished e).1 pair p cut [⟨.name, [98], .zero⟩] .origin accepted rfl fails⟩
  · obtain ⟨p, accepted⟩ : ∃ p, parse (utf8 "var a," ++ 10 :: utf8 "b") = .ok p :=
      exists_of_isOk (by decide +kernel)
    obtain ⟨ts, known⟩ : ∃ ts, Lexer.read (utf8 "var a,") = .ok ts := exists_of_isOk (by decide +kernel)
    obtain ⟨e, fails, -⟩ : ∃ e, parse (utf8 "var a,") = .error e ∧ e.incomplete = false :=
      exists_complete_error (by decide +kernel)
    exact ⟨ts, e, known, fails, (beginnings_unfinished e).2 _ _ p ts accepted known fails⟩

/-- What is incomplete can be completed: some tokens make a program of it, and if it is an entry of the
interactive loop, some line does, with which the loop stops asking for more. -/
theorem unfinished_completable :
    (∀ (ts : Lexer.Tokens) e, parseTokens ts = .error e → e.incomplete →
      ∃ us, us ≠ [] ∧ (∀ u ∈ us, u.kind ≠ .endOfInput) ∧
        ∀ stop, ∃ p, parseTokens ⟨ts.tokens ++ us, stop⟩ = .ok p) ∧
    ∀ entry, Repl.isUnfinished entry →
      ∃ line, 10 ∉ line ∧ (∃ p, parse (entry ++ 10 :: line) = .ok p) ∧
        ∀ steps editor answered, editor.prompt Repl.morePrompt = (some (.text line), answered) →
          Repl.readEntry (steps + 1) editor entry = (some (entry ++ 10 :: line), answered) := by
  constructor
  · intro ts e fails incomplete
    obtain ⟨kinds, some, written, accepted⟩ := completed_of_incomplete fails incomplete
    refine ⟨kinds.map (⟨·, [], .zero⟩), by simpa using some, ?_, fun stop => accepted _ stop ?_⟩
    · intro u held
      obtain ⟨kind, member, rfl⟩ := List.mem_map.mp held
      rintro rfl
      exact absurd (List.all_eq_true.mp written _ member) (by decide)
    · simp [Function.comp_def]
  · intro entry unfinished
    obtain ⟨ts, e, known, fails, incomplete⟩ := Repl.isUnfinished_eq_true.mp unfinished
    obtain ⟨kinds, -, written, accepted⟩ := completed_of_incomplete fails incomplete
    obtain ⟨us, stop, all, same⟩ := Lexer.read_line known written
    obtain ⟨p, accepted⟩ := accepted us stop same
    have accepted : parse (entry ++ 10 :: Lexer.line kinds) = .ok p := parse_eq_ok.mpr ⟨_, all, accepted⟩
    refine ⟨Lexer.line kinds, Lexer.newline_not_mem_line, ⟨p, accepted⟩, fun steps editor answered answer => ?_⟩
    exact Repl.readEntry_of_parse unfinished answer accepted

/-- An open sum can be completed, at the prompt with one more line. -/
theorem unfinished_completable_sum :
    (∃ ts, Lexer.read (utf8 "print (1 +") = .ok ts ∧ ∃ us, us ≠ [] ∧ (∀ u ∈ us, u.kind ≠ .endOfInput) ∧
      ∀ stop, ∃ p, parseTokens ⟨ts.tokens ++ us, stop⟩ = .ok p) ∧
    ∃ line, 10 ∉ line ∧ (∃ p, parse (utf8 "print (1 +" ++ 10 :: line) = .ok p) ∧
      Repl.readEntry 1 ⟨[.text line], [], 0⟩ (utf8 "print (1 +") =
        (some (utf8 "print (1 +" ++ 10 :: line), ⟨[], [Repl.morePrompt], 1⟩) := by
  have unfinished : Repl.isUnfinished (utf8 "print (1 +") := by decide +kernel
  constructor
  · obtain ⟨ts, e, known, fails, incomplete⟩ := Repl.isUnfinished_eq_true.mp unfinished
    exact ⟨ts, known, unfinished_completable.1 ts e fails incomplete⟩
  · obtain ⟨line, single, accepted, entered⟩ := unfinished_completable.2 _ unfinished
    exact ⟨line, single, accepted, entered 0 ⟨[.text line], [], 0⟩ _ rfl⟩

end CellScript.Parser
