import CellScript.Proofs.Lexing.Lexemes
import CellScript.Proofs.Places

/-! The tokens tile the source. Their texts stand in it one after another with gaps of blanks and comments
between them, each token's span is the place of its text, and the lexer fails only at the end of such a
tiling. -/
namespace CellScript.Lexer

/-- Blanks and comments one after another. A comment runs to the end of its line; only in a final gap can
it run to the end of the source instead. -/
inductive Gap (final : Prop) : Text → Prop
  | nil : Gap final []
  | blank {b : UInt8} {t : Text} (space : isSpace b) (more : Gap final t) : Gap final (b :: t)
  | comment {s t : Text} (line : 10 ∉ s) (ends : t.head? = some 10 ∨ final ∧ t = []) (more : Gap final t) :
    Gap final (byte '/' :: byte '/' :: s ++ t)

/-- The text of a token is its value, for a string between two equal quotes. -/
def Spells (t : Token) (x : Text) : Prop :=
  if t.kind = .string then ∃ quote, (quote = byte '"' ∨ quote = 39) ∧ x = quote :: t.value ++ [quote]
  else x = t.value

/-- The text is made of gaps and the texts of the tokens, each token behind a gap, and the span of a token
starts and ends where its text does. -/
inductive Tiled : Text → List Token → Prop
  | nil : Tiled [] []
  | snoc {s gap x : Text} {ts : List Token} {t : Token} (before : Tiled s ts) (apart : Gap False gap)
    (spelt : Spells t x) (covers : t.span = ⟨.behind (s ++ gap), .behind (s ++ gap ++ x)⟩) :
    Tiled (s ++ gap ++ x) (ts ++ [t])

variable {b : UInt8} {t gap rest : Text} {l : Lexeme} {afterDot : Bool} {n : Nat} {ts : Tokens}

section Gaps

variable {final : Prop} {comment : Bool}

/-- What is split off is a gap; within a comment it is the rest of the comment and then a gap. -/
theorem splitGap_gap (found : splitGap comment t = (gap, rest)) :
    ∃ s g, gap = s ++ g ∧ (comment = false → s = []) ∧ 10 ∉ s ∧
      (comment → g.head? = some 10 ∨ rest = [] ∧ g = []) ∧ Gap (rest = []) g := by
  fun_induction splitGap comment t generalizing gap with
  | case1 comment =>
    cases found
    exact ⟨[], [], rfl, fun _ => rfl, List.not_mem_nil, fun _ => .inr ⟨rfl, rfl⟩, .nil⟩
  | case2 b t gap rest split ih =>
    cases found
    obtain ⟨s, g, rfl, none, line, ends, more⟩ := ih split
    by_cases newline : b = 10
    · cases none (by simp [newline])
      exact ⟨[], b :: g, rfl, fun _ => rfl, List.not_mem_nil, fun _ => .inl (by simp [newline]),
        .blank (by simp [newline, isSpace]) more⟩
    · refine ⟨b :: s, g, rfl, fun outside => Bool.noConfusion outside, ?_, fun _ => ends (by simp [newline]), more⟩
      simp [Ne.symm newline, line]
  | case3 comment b t code space gap rest split ih =>
    cases found
    obtain ⟨s, g, rfl, none, -, -, more⟩ := ih split
    cases none rfl
    exact ⟨[], b :: g, rfl, fun _ => rfl, List.not_mem_nil, fun inside => absurd inside code, .blank space more⟩
  | case4 comment b t code word slashes gap rest split ih =>
    cases found
    obtain ⟨s, g, rfl, -, line, ends, more⟩ := ih split
    obtain ⟨rfl, second⟩ : b = byte '/' ∧ t.head? = some (byte '/') := by simpa using slashes
    -- the second slash is part of the comment, whose end is neither a slash nor here
    obtain ⟨s, rfl⟩ : ∃ r, s = byte '/' :: r := by
      rw [splitGap_parts split] at second
      cases s with
      | nil => obtain first | ⟨rfl, rfl⟩ := ends rfl <;> simp_all [byte]
      | cons c s => simp_all
    refine ⟨[], byte '/' :: byte '/' :: s ++ g, rfl, fun _ => rfl, List.not_mem_nil,
      fun inside => absurd inside code, .comment ?_ (ends rfl) more⟩
    exact fun newline => line (List.mem_cons_of_mem _ newline)
  | case5 comment b t code word plain =>
    cases found
    exact ⟨[], [], rfl, fun _ => rfl, List.not_mem_nil, fun inside => absurd inside code, .nil⟩

theorem splitGap_gap_final (found : splitGap false t = (gap, [])) : Gap True gap := by
  obtain ⟨s, g, rfl, none, -, -, more⟩ := splitGap_gap found
  cases none rfl
  simpa using more

theorem splitGap_gap_inner (found : splitGap false t = (gap, b :: rest)) : Gap False gap := by
  obtain ⟨s, g, rfl, none, -, -, more⟩ := splitGap_gap found
  cases none rfl
  simpa using more

end Gaps

theorem lexeme_spelt (found : lexeme afterDot b t = .ok l) (s : Span) : Spells ⟨l.kind, l.value, s⟩ l.source := by
  cases lexeme_eq_ok.mp found with
  | string quotes body => exact (if_pos rfl).mpr ⟨b, quotes, rfl⟩
  | number plain digit =>
    have other : (number afterDot (b :: t)).1 ≠ .string := by
      unfold number
      split
      · exact nofun
      · dsimp only
        split <;> exact nofun
    exact (if_neg other).mpr rfl
  | @word w plain letter starts whole =>
    have other : (Vocabulary.ofText? w).elim Token.Kind.name .keyword ≠ .string := by
      cases (Vocabulary.ofText? w : Option Keyword) <;> exact nofun
    exact (if_neg other).mpr rfl
  | mark plain letter other marks => exact (if_neg nofun).mpr rfl

/-- Only numbers depend on what stands before them, and every digit starts one. -/
theorem lexeme_error_anywhere {cause : Cause} (failed : lexeme afterDot b t = .error cause) (dot : Bool) :
    lexeme dot b t = .error cause := by
  unfold lexeme at failed ⊢
  split at failed
  next quotes => rwa [if_pos quotes]
  next plain =>
    split at failed
    · cases failed
    next letter => rwa [if_neg plain, if_neg letter]

theorem Tiled.token {s : Text} {us : List Token} (before : Tiled s us)
    (found : splitGap false t = (gap, b :: rest)) (first : lexeme afterDot b rest = .ok l) :
    Tiled (s ++ gap ++ l.source)
      (us ++ [⟨l.kind, l.value, (Position.behind s).after gap, ((Position.behind s).after gap).after l.source⟩]) :=
  before.snoc (splitGap_gap_inner found) (lexeme_spelt first _) (by simp only [Position.after_behind])

/-- What is read behind a tiled text goes on with its tiling, up to a last gap. -/
theorem Lexes.tiled {p : Position} (reads : Lexes p afterDot t ts) {s : Text} {us : List Token}
    (here : p = .behind s) (before : Tiled s us) :
    ∃ r gap, t = r ++ gap ∧ Tiled (s ++ r) (us ++ ts.tokens) ∧ Gap True gap ∧ ts.stop = .behind (s ++ t) := by
  induction reads generalizing s us with
  | @last p afterDot t gap found =>
    subst here
    obtain rfl : t = gap := by simpa using splitGap_parts found
    exact ⟨[], t, rfl, by simpa using before, splitGap_gap_final found, Position.after_behind s t⟩
  | @token p afterDot t gap rest tail b l ts found first whole more ih =>
    subst here whole
    obtain ⟨r, last, rfl, tiled, final, stop⟩ :=
      ih (by simp only [Position.after_behind]) (before.token found first)
    refine ⟨gap ++ l.source ++ r, last, by simp, ?_, final, ?_⟩
    · simpa using tiled
    · simpa using stop

/-- Where reading behind a tiled text fails, the tiling ends, and no token can be formed there. -/
theorem readFrom_stopped {s : Text} {us : List Token} {e : Error} (before : Tiled s us)
    (failed : readFrom n (.behind s) afterDot t = .error e) (enough : t.length ≤ n) :
    ∃ r vs gap b rest, t = r ++ gap ++ b :: rest ∧ Tiled (s ++ r) vs ∧ Gap False gap ∧ b ≠ 10 ∧
      e.place = .behind (s ++ r ++ gap) ∧ ∀ dot, lexeme dot b rest = .error e.cause := by
  induction n generalizing s us afterDot t with
  | zero =>
    obtain ⟨gap, b, rest, found, -⟩ := readFrom_eq_error failed enough
    simp [splitGap_parts found] at enough
  | succ n ih =>
    obtain ⟨gap, b, rest, found, ⟨cause, none, rfl⟩ | ⟨l, m, first, same, later⟩⟩ := readFrom_eq_error failed enough
    · refine ⟨[], us, gap, b, rest, ?_, ?_, splitGap_gap_inner found, ?_, ?_, lexeme_error_anywhere none⟩
      · simpa using splitGap_parts found
      · simpa using before
      · rintro rfl
        exact (splitGap_stops found).1 (by decide)
      · simp [Position.after_behind]
    · cases same
      obtain ⟨tail, whole⟩ : l.source <+: b :: rest := lexeme_begins first
      obtain ⟨x, some⟩ := exists_lexeme first
      rw [Position.after_behind, Position.after_behind, ← whole, List.drop_left] at later
      have fewer : tail.length ≤ n := by
        rw [splitGap_parts found, ← whole, some] at enough
        simp at enough
        omega
      obtain ⟨r, vs, last, c, others, rfl, tiled, inner, line, place, none⟩ := ih (before.token found first) later fewer
      refine ⟨gap ++ l.source ++ r, vs, last, c, others, ?_, ?_, inner, line, ?_, none⟩
      · rw [splitGap_parts found, ← whole]
        simp
      · simpa using tiled
      · simpa using place

/-- The tokens of a source tile it up to a last gap, and the end of input stands at its end. A source without
tokens is tiled up to the byte that the failure names, and no token starts with that byte. -/
theorem tokens_tile_source (source : Text) :
    match read source with
    | .ok ts => ∃ tiled gap tokens, source = tiled ++ gap ∧ Tiled tiled tokens ∧ Gap True gap ∧
        ts.toList = tokens ++ [⟨.endOfInput, [], ⟨.behind source, .behind source⟩⟩]
    | .error e => ∃ tiled tokens gap b rest, source = tiled ++ gap ++ b :: rest ∧ Tiled tiled tokens ∧
        Gap False gap ∧ e.span = ⟨.behind (tiled ++ gap), .behind (tiled ++ gap ++ [b])⟩ ∧
          ∀ dot, lexeme dot b rest = .error e.cause := by
  cases known : read source with
  | ok ts =>
    obtain ⟨r, gap, whole, tiled, final, stop⟩ := (readFrom_lexes known).tiled (s := []) rfl .nil
    refine ⟨r, gap, ts.tokens, whole, tiled, final, ?_⟩
    rw [Tokens.toList, Tokens.endSpan, stop]
    rfl
  | error e =>
    obtain ⟨r, us, gap, b, rest, whole, tiled, inner, line, place, none⟩ :=
      readFrom_stopped (s := []) .nil known le_rfl
    refine ⟨r, us, gap, b, rest, whole, tiled, inner, ?_, none⟩
    rw [Error.span, place, Position.behind_snoc _ line]
    rfl

/-- A name, a mark and, behind a comment, a number on the second line. -/
example : (read (utf8 "x := // y\n 1.5")).toOption.map (·.toList) = some [
    ⟨.name, utf8 "x", ⟨⟨1, 1⟩, ⟨1, 2⟩⟩⟩, ⟨.mark .assign, utf8 ":=", ⟨⟨1, 3⟩, ⟨1, 5⟩⟩⟩,
    ⟨.real, utf8 "1.5", ⟨⟨2, 2⟩, ⟨2, 5⟩⟩⟩, ⟨.endOfInput, [], ⟨⟨2, 5⟩, ⟨2, 5⟩⟩⟩] := by
  decide +kernel

/-- Tokens stand behind one another. -/
def Ascending (ts : List Token) : Prop :=
  (∀ t ∈ ts, t.span.start ≤ t.span.stop) ∧ ts.Pairwise fun a b => a.span.stop ≤ b.span.start

theorem Ascending.snoc {ts : List Token} {t : Token} (ascending : Ascending ts)
    (proper : t.span.start ≤ t.span.stop) (behind : ∀ a ∈ ts, a.span.stop ≤ t.span.start) :
    Ascending (ts ++ [t]) :=
  ⟨by simpa [or_imp, forall_and, proper] using ascending.1,
    List.pairwise_append.mpr ⟨ascending.2, List.pairwise_singleton _ _, by simpa using behind⟩⟩

section Order

variable {us : List Token} {i j : Nat} {a b : Token}

theorem Ascending.stop_le_start (ascending : Ascending us) (first : us[i]? = some a) (second : us[j]? = some b)
    (lt : i < j) : a.span.stop ≤ b.span.start := by
  obtain ⟨bound, rfl⟩ := List.getElem?_eq_some_iff.mp first
  obtain ⟨bound', rfl⟩ := List.getElem?_eq_some_iff.mp second
  exact List.pairwise_iff_getElem.mp ascending.2 i j bound bound' lt

theorem Ascending.start_le (ascending : Ascending us) (first : us[i]? = some a) (second : us[j]? = some b)
    (le : i ≤ j) : a.span.start ≤ b.span.start := by
  obtain lt | rfl := le.lt_or_eq
  · exact (ascending.1 a (List.mem_of_getElem? first)).trans (ascending.stop_le_start first second lt)
  · rw [Option.some.inj (first.symm.trans second)]

theorem Ascending.stop_le (ascending : Ascending us) (first : us[i]? = some a) (second : us[j]? = some b)
    (le : i ≤ j) : a.span.stop ≤ b.span.stop := by
  obtain lt | rfl := le.lt_or_eq
  · exact (ascending.stop_le_start first second lt).trans (ascending.1 b (List.mem_of_getElem? second))
  · rw [Option.some.inj (first.symm.trans second)]

end Order

theorem Tiled.ascending {s : Text} {ts : List Token} (tiled : Tiled s ts) :
    Ascending ts ∧ ∀ t ∈ ts, t.span.stop ≤ .behind s := by
  induction tiled with
  | nil => exact ⟨⟨List.forall_mem_nil _, .nil⟩, List.forall_mem_nil _⟩
  | @snoc s gap x ts t before apart spelt covers ih =>
    obtain ⟨ascending, within⟩ := ih
    have start : Position.behind s ≤ t.span.start := by
      rw [covers]
      exact Position.behind_le s gap
    have proper : t.span.start ≤ t.span.stop := by
      rw [covers]
      exact Position.behind_le (s ++ gap) x
    have stop : t.span.stop = .behind (s ++ gap ++ x) := by rw [covers]
    refine ⟨ascending.snoc proper fun a member => (within a member).trans start, fun a member => ?_⟩
    rw [← stop]
    obtain old | new := List.mem_append.mp member
    · exact ((within a old).trans start).trans proper
    · rw [List.mem_singleton.mp new]

/-- The tokens of a source stand behind one another, the end of input behind them all. -/
theorem read_ascending {source : Text} (known : read source = .ok ts) : Ascending ts.toList := by
  obtain ⟨r, gap, rfl, tiled, -, stop⟩ := (readFrom_lexes known).tiled (s := []) rfl .nil
  obtain ⟨ascending, within⟩ := tiled.ascending
  have whole : ts.stop = .behind (r ++ gap) := stop
  refine ascending.snoc le_rfl fun t member => (within t member).trans ?_
  rw [Tokens.endSpan, whole]
  exact Position.behind_le r gap

end CellScript.Lexer
