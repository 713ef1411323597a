import CellScript.Proofs.Parsing.Completion
import CellScript.Proofs.Lexing.Tiling
import CellScript.Proofs.Tree.Subtrees

/-! The spans of a parsed tree nest. Every node covers tokens from one to another, its parts lie within it and
behind one another, and a body without statements has the place of the token that closes it or of semicolons.
The tokens are told by their numbers; that these go up along the source is a fact of the lexer. -/
namespace CellScript

/-- The span goes from the start of one token to the end of that one or a later one. -/
def Span.Covers (ts : List Token) (i j : Nat) (s : Span) : Prop :=
  i ≤ j ∧ ∃ a b, ts[i]? = some a ∧ ts[j]? = some b ∧ s = a.span.upTo b.span

namespace Span.Covers

variable {us : List Token} {i j a b : Nat} {s t : Span}

theorem start_le (ascending : Lexer.Ascending us) (outer : s.Covers us i j) (inner : t.Covers us a b) (le : i ≤ a) :
    s.start ≤ t.start := by
  obtain ⟨-, x, -, found, -, rfl⟩ := outer
  obtain ⟨-, y, -, found', -, rfl⟩ := inner
  exact ascending.start_le found found' le

theorem stop_le (ascending : Lexer.Ascending us) (outer : s.Covers us i j) (inner : t.Covers us a b) (le : b ≤ j) :
    t.stop ≤ s.stop := by
  obtain ⟨-, -, x, -, found, rfl⟩ := outer
  obtain ⟨-, -, y, -, found', rfl⟩ := inner
  exact ascending.stop_le found' found le

theorem before (ascending : Lexer.Ascending us) (first : s.Covers us i j) (second : t.Covers us a b) (lt : j < a) :
    s.stop ≤ t.start := by
  obtain ⟨-, -, x, -, found, rfl⟩ := first
  obtain ⟨-, y, -, found', -, rfl⟩ := second
  exact ascending.stop_le_start found found' lt

end Span.Covers

namespace Parser

/-- The words behind which a body stands. -/
def openers : List Token.Kind :=
  [.keyword .thenWord, .keyword .elseWord, .keyword .isWord, .keyword .loopWord]

/-- A body starts with the token of this number: it is the first one or follows an opening word. -/
def Opened (ts : List Token) (i : Nat) : Prop :=
  ∀ k, i = k + 1 → ∃ t, ts[k]? = some t ∧ t.kind ∈ openers

/-- The place of a body without statements: semicolons right behind its opening, or the token there that
closes it. -/
def Vacant (ts : List Token) (s : Span) : Prop :=
  ∃ i j, s.Covers ts i j ∧ Opened ts i ∧
    ((∀ k, i ≤ k → k ≤ j → ∃ t, ts[k]? = some t ∧ t.kind = .mark .semicolon) ∨
      j = i ∧ ∃ t, ts[i]? = some t ∧ t.kind ∈ closers)

/-- How the span of a node lies among the tokens and about those of its parts. -/
structure Placed (ts : List Token) (x : Subtree) : Prop where
  covers : ∃ i j, x.span.Covers ts i j
  within : ∀ y ∈ x.parts, x.span.start ≤ y.span.start ∧ y.span.stop ≤ x.span.stop
  ordered : x.parts.Pairwise fun y z => y.span.stop ≤ z.span.start
  vacant : ∀ b, x = .body b → b.statements = [] → Vacant ts b.span

variable {ts : Lexer.Tokens} {i j k : Nat} {c d : Cursor}

namespace Cursor

/-- The cursor stands before the token of this number. -/
structure At (ts : Lexer.Tokens) (i : Nat) (c : Cursor) : Prop where
  rest : c.rest = ts.tokens.drop i
  last : c.last = (ts.tokens.take i).getLast?.map (·.span)
  stop : c.stop = ts.endSpan
  bound : i ≤ ts.tokens.length

namespace At

theorem ofTokens (ts : Lexer.Tokens) : At ts 0 (.ofTokens ts) := ⟨rfl, rfl, rfl, Nat.zero_le _⟩

/-- Before the end there is a token to read. -/
theorem token (here : At ts i c) (bound : i < ts.tokens.length) :
    ∃ t, ts.toList[i]? = some t ∧ c.rest = t :: ts.tokens.drop (i + 1) ∧
      ts.tokens.take (i + 1) = ts.tokens.take i ++ [t] := by
  refine ⟨ts.tokens[i], ?_, ?_, List.take_succ_eq_append_getElem bound⟩
  · rw [Lexer.Tokens.toList, List.getElem?_append_left bound, List.getElem?_eq_getElem bound]
  · rw [here.rest, List.drop_eq_getElem_cons bound]

theorem next (here : At ts i c) : ∃ t, ts.toList[i]? = some t ∧ t.kind = c.kindAt 0 ∧ t.span = c.nextSpan := by
  obtain bound | rfl := here.bound.lt_or_eq
  · obtain ⟨t, found, rest, -⟩ := here.token bound
    exact ⟨t, found, by simp [kindAt, rest], by simp [nextSpan, rest]⟩
  · have rest : c.rest = [] := by rw [here.rest, List.drop_length]
    refine ⟨⟨.endOfInput, [], ts.endSpan⟩, ?_, by simp [kindAt, rest], by simp [nextSpan, rest, here.stop]⟩
    simp [Lexer.Tokens.toList]

theorem behind (here : At ts (k + 1) c) : ∃ t, ts.toList[k]? = some t ∧ t.span = c.lastSpan := by
  have bound : k < ts.tokens.length := here.bound
  have last : c.last = some ts.tokens[k].span := by
    rw [here.last, List.take_succ_eq_append_getElem bound, List.getLast?_concat, Option.map_some]
  refine ⟨ts.tokens[k], ?_, by rw [lastSpan, last, Option.getD_some]⟩
  rw [Lexer.Tokens.toList, List.getElem?_append_left bound, List.getElem?_eq_getElem bound]

theorem skip (here : At ts i c) {kind : Token.Kind} (next : c.kindAt 0 = kind)
    (token : kind ≠ .endOfInput := by rintro ⟨⟩) : At ts (i + 1) c.skip := by
  obtain bound | rfl := here.bound.lt_or_eq
  · obtain ⟨t, -, rest, taken⟩ := here.token bound
    have step : c.skip = ⟨ts.tokens.drop (i + 1), some t.span, ts.endSpan⟩ := by simp [Cursor.skip, rest, here.stop]
    rw [step]
    exact ⟨rfl, by simp [taken], rfl, bound⟩
  · have rest : c.rest = [] := by rw [here.rest, List.drop_length]
    exact absurd (next.symm.trans (by simp [kindAt, rest])) token

theorem skip_of (here : At ts i c) {α : Type} {meaning : Token.Kind → Option α} {a : α}
    (next : meaning (c.kindAt 0) = some a) (none : meaning .endOfInput = none := by rfl) : At ts (i + 1) c.skip := by
  refine here.skip rfl fun stop => ?_
  rw [stop, none] at next
  cases next

theorem covers (here : At ts i c) (there : At ts (j + 1) d) (le : i ≤ j) : (c.spanTo d).Covers ts.toList i j := by
  obtain ⟨a, first, -, start⟩ := here.next
  obtain ⟨b, last, stop⟩ := there.behind
  exact ⟨le, a, b, first, last, by rw [spanTo, ← start, ← stop]⟩

theorem covers_next (here : At ts i c) : c.nextSpan.Covers ts.toList i i := by
  obtain ⟨a, only, -, span⟩ := here.next
  exact ⟨le_rfl, a, a, only, only, span.symm⟩

end At

end Cursor

/-- The node and all below it are placed. -/
def Nested (ts : List Token) (x : Subtree) : Prop := ∀ y, y.Under x → Placed ts y

/-- Nested nodes that cover tokens behind one another, from the number `i` on and before the number `j`. -/
inductive Row (ts : List Token) : Nat → Nat → List Subtree → Prop
  | nil {i j : Nat} (le : i ≤ j) : Row ts i j []
  | cons {i a b j : Nat} {x : Subtree} {xs : List Subtree} (start : i ≤ a) (covers : x.span.Covers ts a b)
    (nested : Nested ts x) (more : Row ts (b + 1) j xs) : Row ts i j (x :: xs)

namespace Row

variable {us : List Token} {i j m n : Nat} {x : Subtree} {xs ys : List Subtree}

theorem le (row : Row us i j xs) : i ≤ j := by
  induction row with
  | nil le => exact le
  | cons start covers nested more ih =>
    have within := covers.1
    omega

theorem lt (row : Row us i j (x :: xs)) : i < j := by
  cases row with
  | cons start covers nested more =>
    have within := covers.1
    have rest := more.le
    omega

theorem mono (row : Row us m n xs) (start : i ≤ m) (stop : n ≤ j) : Row us i j xs := by
  induction row generalizing i with
  | nil le => exact .nil (by omega)
  | cons start' covers nested more ih => exact .cons (start.trans start') covers nested (ih le_rfl stop)

theorem append (first : Row us i m xs) (second : Row us m j ys) : Row us i j (xs ++ ys) := by
  induction first with
  | nil le => exact second.mono le le_rfl
  | cons start covers nested more ih => exact .cons start covers nested (ih second)

theorem follow (first : Row us i m [x]) (rest : Row us m j xs) : Row us i j (x :: xs) := first.append rest

theorem covers_mem (row : Row us i j xs) (member : x ∈ xs) :
    Nested us x ∧ ∃ a b, i ≤ a ∧ b < j ∧ x.span.Covers us a b := by
  induction row with
  | nil le => cases member
  | @cons i a b j y ys start covers nested more ih =>
    obtain _ | member := member
    · exact ⟨nested, a, b, start, more.le, covers⟩
    · obtain ⟨nested, a', b', start', stop, covers'⟩ := ih ‹_›
      have within := covers.1
      exact ⟨nested, a', b', by omega, stop, covers'⟩

theorem pairwise (ascending : Lexer.Ascending us) (row : Row us i j xs) :
    xs.Pairwise fun x y => x.span.stop ≤ y.span.start := by
  induction row with
  | nil le => exact .nil
  | cons start covers nested more ih =>
    refine .cons (fun y member => ?_) ih
    obtain ⟨-, a, b, after, -, covers'⟩ := more.covers_mem member
    exact covers.before ascending covers' after

/-- A node is nested if its parts are, in a row, within the tokens that it covers. -/
theorem node (ascending : Lexer.Ascending us) (covers : x.span.Covers us i j) (parts : Row us i (j + 1) x.parts)
    (vacant : ∀ b, x = .body b → b.statements = [] → Vacant us b.span) : Row us i (j + 1) [x] := by
  have placed : Placed us x := by
    refine ⟨⟨i, j, covers⟩, fun y member => ?_, parts.pairwise ascending, vacant⟩
    obtain ⟨-, a, b, start, stop, covers'⟩ := parts.covers_mem member
    exact ⟨covers.start_le ascending covers' start, covers.stop_le ascending covers' (Nat.le_of_lt_succ stop)⟩
  refine .cons le_rfl covers (fun y under => ?_) (.nil le_rfl)
  cases under with
  | refl => exact placed
  | step part below => exact (parts.covers_mem part).1 y below

end Row

/-- The nodes that a phrase stands for. -/
def Phrase.subtrees : Phrase → List Subtree
  | .expression e | .initial e => Subtree.ofExpr e
  | .operators more => more.map fun x => .operand x.2
  | .expressions es => es.flatMap Subtree.ofExpr
  | .operand x => [.operand x]
  | .primary p => [.primary p]
  | .tails ts => ts.map .tail
  | .tail t => [.tail t]
  | .literal l => [.literal l]
  | .elements es => es.map .element
  | .statements ss | .statement ss | .declarations ss => ss.map .statement
  | .body b => Subtree.ofBody b
  | .sign _ | .test _ | .label _ | .names _ | .parameters _ => []

/-- The nodes of a phrase cover its tokens one after another. A body has to stand behind its opening; without
statements it may cover the token that closes it, which is no token of its own. -/
def Phrase.Laid (ts : Lexer.Tokens) : Phrase → Cursor → Cursor → Prop
  | .body b, c, d => ∀ i, c.At ts i → Opened ts.toList i →
    ∃ j, d.At ts j ∧ Row ts.toList i (j + 1) (Phrase.body b).subtrees
  | ph, c, d => ∀ i, c.At ts i → ∃ j, d.At ts j ∧ Row ts.toList i j ph.subtrees

variable {x : Subtree}

theorem Cursor.At.node (here : c.At ts i) (there : d.At ts j) (ascending : Lexer.Ascending ts.toList)
    (lt : i < j) (span : x.span = c.spanTo d) (parts : Row ts.toList i j x.parts)
    (plain : ∀ b, x ≠ .body b := by nofun) : Row ts.toList i j [x] := by
  obtain ⟨j, rfl⟩ : ∃ k, j = k + 1 := Nat.exists_eq_add_one.mpr (Nat.zero_lt_of_lt lt)
  refine .node ascending ?_ parts fun b same => absurd same (plain b)
  rw [span]
  exact here.covers there (Nat.le_of_lt_succ lt)

theorem Cursor.At.leaf (here : c.At ts i) (ascending : Lexer.Ascending ts.toList) (span : x.span = c.nextSpan)
    (none : x.parts = []) (plain : ∀ b, x ≠ .body b := by nofun) : Row ts.toList i (i + 1) [x] := by
  refine .node ascending ?_ (by rw [none]; exact .nil (Nat.le_succ i)) fun b same => absurd same (plain b)
  rw [span]
  exact here.covers_next

theorem Cursor.At.opened (here : c.At ts i) {k : Keyword} (next : c.kindAt 0 = .keyword k)
    (opens : .keyword k ∈ openers) : Opened ts.toList (i + 1) := by
  rintro k' same
  cases same
  obtain ⟨t, found, kind, -⟩ := here.next
  exact ⟨t, found, by rwa [kind, next]⟩

theorem Cursor.At.length (here : c.At ts i) : c.rest.length + i = ts.tokens.length := by
  have bound := here.bound
  rw [here.rest, List.length_drop]
  omega

theorem Cursor.At.unique (here : c.At ts i) (here' : c.At ts j) : i = j :=
  Nat.add_left_cancel (here.length.trans here'.length.symm)

theorem Parses.number_le {ph : Phrase} (parses : Parses ph c d) (here : c.At ts i) (there : d.At ts j) :
    i + ph.least ≤ j := by
  have le := parses.length_le
  have start := here.length
  have stop := there.length
  omega

theorem Parses.statement_ne_nil {ss : List Statement} (parses : Parses (.statement ss) c d) : ss ≠ [] := by
  cases parses with
  | declare word inner => cases inner <;> exact List.cons_ne_nil _ _
  | _ => exact List.cons_ne_nil _ _

/-- No statements are read from semicolons only, up to a closing token. -/
theorem Parses.semicolons {ph : Phrase} (parses : Parses ph c d) (none : ph = .statements []) (here : c.At ts i)
    (there : d.At ts j) :
    (∀ k, i ≤ k → k < j → ∃ t, ts.toList[k]? = some t ∧ t.kind = .mark .semicolon) ∧
      ∃ t, ts.toList[j]? = some t ∧ t.kind ∈ closers := by
  induction parses generalizing i with
  | noStatement next =>
    cases here.unique there
    obtain ⟨t, found, kind, -⟩ := here.next
    exact ⟨fun k ge lt => absurd ge (Nat.not_le_of_lt lt), t, found, by rwa [kind]⟩
  | semicolon next rest ih =>
    obtain ⟨between, closing⟩ := ih none (here.skip next) there
    refine ⟨fun k ge lt => ?_, closing⟩
    obtain rfl | gt := ge.eq_or_lt
    · obtain ⟨t, found, kind, -⟩ := here.next
      exact ⟨t, found, kind.trans next⟩
    · exact between k gt lt
  | anotherStatement first rest ih ih' =>
    rw [Phrase.statements.injEq, List.append_eq_nil_iff] at none
    exact absurd none.1 first.statement_ne_nil
  | _ => cases none

/-- A body after other nodes, up to the token that closes it. -/
theorem Cursor.At.body {h m : Cursor} {a : Nat} {xs : List Subtree} {b : Body} {opener : Keyword}
    (here : h.At ts a) (before : Row ts.toList i (a + 1) xs) (next : h.kindAt 0 = .keyword opener)
    (opens : .keyword opener ∈ openers) (inner : (Phrase.body b).Laid ts h.skip m) :
    ∃ j, m.At ts j ∧ Row ts.toList i (j + 1) (xs ++ Subtree.ofBody b) := by
  obtain ⟨j, there, row⟩ := inner (a + 1) (here.skip next) (here.opened next opens)
  exact ⟨j, there, before.append row⟩

/-- A construct from the token in front of its parts to the one behind them. -/
theorem Cursor.At.enclosed (here : c.At ts i) (there : d.At ts (j + 1)) (ascending : Lexer.Ascending ts.toList)
    (span : x.span = c.spanTo d) (parts : Row ts.toList (i + 1) (j + 1) x.parts) (plain : ∀ b, x ≠ .body b) :
    Row ts.toList i (j + 1) [x] :=
  here.node there ascending parts.le span (parts.mono (Nat.le_succ i) le_rfl) plain

theorem Parses.laid_body {ss : List Statement} (parses : Parses (.statements ss) c d)
    (ascending : Lexer.Ascending ts.toList) (laid : (Phrase.statements ss).Laid ts c d) :
    (Phrase.body (.mk (if ss.isEmpty then c.nextSpan else c.spanTo d) ss false)).Laid ts c d := by
  intro i here opened
  obtain ⟨j, there, row⟩ := laid i here
  refine ⟨j, there, ?_⟩
  cases ss with
  | nil =>
    obtain ⟨between, closing⟩ := parses.semicolons rfl here there
    have alone : Row ts.toList i (i + 1) [.body (.mk c.nextSpan [] false)] := by
      refine .node ascending here.covers_next (.nil (Nat.le_succ i)) ?_
      rintro b same -
      cases same
      refine ⟨i, i, here.covers_next, opened, ?_⟩
      obtain rfl | lt := row.le.eq_or_lt
      · exact .inr ⟨rfl, closing⟩
      · exact .inl fun k ge le => between k ge (le.trans_lt lt)
    exact alone.mono le_rfl (Nat.succ_le_succ row.le)
  | cons s ss =>
    obtain ⟨j, rfl⟩ : ∃ k, j = k + 1 := Nat.exists_eq_add_one.mpr (Nat.zero_lt_of_lt row.lt)
    have whole : Row ts.toList i (j + 1) [.body (.mk (c.spanTo d) (s :: ss) false)] := by
      refine .node ascending (here.covers there (Nat.le_of_lt_succ row.lt)) row ?_
      rintro b same none
      cases same
      cases none
    exact whole.mono le_rfl (Nat.le_succ _)

theorem Parses.laid {ph : Phrase} (parses : Parses ph c d) (ascending : Lexer.Ascending ts.toList) :
    ph.Laid ts c d := by
  induction parses with
  | noOperator | noSign | noTest | noTail | noLabel | noElement | noName | noParameters | noStatement
  | noInitial => exact fun i here => ⟨i, here, .nil le_rfl⟩
  | sign next => exact fun i here => ⟨i + 1, here.skip_of next, .nil (by omega)⟩
  | wordTest next word => exact fun i here => ⟨i + 2, (here.skip next).skip_of word, .nil (by omega)⟩
  | arrayTest next left right | tupleTest next left right =>
    exact fun i here => ⟨i + 3, ((here.skip next).skip left).skip right, .nil (by omega)⟩
  | label next assign => exact fun i here => ⟨i + 2, (here.skip next).skip assign, .nil (by omega)⟩
  | lastName name next => exact fun i here => ⟨i + 1, here.skip name, .nil (by omega)⟩
  | read next => exact fun i here => ⟨i + 1, here.skip_of next, here.leaf ascending rfl rfl⟩
  | integer next | real next | string next | trueWord next | falseWord next | emptyWord next | brk next
  | cont next => exact fun i here => ⟨i + 1, here.skip next, here.leaf ascending rfl rfl⟩
  | index next next' | field next next' | emptyCall next next' | emptyArray next next' =>
    intro i here
    have there := (here.skip next).skip next'
    exact ⟨i + 2, there, here.node there ascending (by omega) rfl (.nil (by omega))⟩
  | expression first rest ih ih' =>
    intro i here
    obtain ⟨m, there, row⟩ := ih i here
    obtain ⟨j, last, row'⟩ := ih' m there
    have all := row.append row'
    refine ⟨j, last, here.node last ascending all.lt rfl ?_⟩
    simpa [Subtree.parts, Phrase.subtrees, Function.comp_def] using all
  | operator next right rest ih ih' =>
    intro i here
    obtain ⟨m, there, row⟩ := ih (i + 1) (here.skip_of next)
    obtain ⟨j, last, row'⟩ := ih' m there
    exact ⟨j, last, (row.append row').mono (by omega) le_rfl⟩
  | lastExpression last next ih =>
    intro i here
    obtain ⟨j, there, row⟩ := ih i here
    exact ⟨j, there, by simpa [Phrase.subtrees] using row⟩
  | anotherExpression first next rest ih ih' =>
    intro i here
    obtain ⟨m, there, row⟩ := ih i here
    obtain ⟨j, last, row'⟩ := ih' (m + 1) (there.skip next)
    exact ⟨j, last, row.append (row'.mono (by omega) le_rfl)⟩
  | operand sign inner test ih ih' ih'' =>
    intro i here
    obtain ⟨a, there, before⟩ := ih i here
    obtain ⟨b, there', row⟩ := ih' a there
    obtain ⟨j, last, after⟩ := ih'' b there'
    have lt := row.lt
    exact ⟨j, last, here.node last ascending (by have := before.le; have := after.le; omega) rfl
      (row.mono before.le after.le)⟩
  | reference next tails ih =>
    intro i here
    obtain ⟨j, there, row⟩ := ih (i + 1) (here.skip next)
    exact ⟨j, there, here.node there ascending row.le rfl (row.mono (by omega) le_rfl)⟩
  | paren left inner right ih | subscript left inner right ih | call left inner right ih
  | array left inner right ih | tuple left inner right ih =>
    intro i here
    obtain ⟨j, there, row⟩ := ih (i + 1) (here.skip left)
    have last := there.skip right
    have le := row.le
    exact ⟨j + 1, last, here.node last ascending (by omega) rfl (row.mono (by omega) (by omega))⟩
  | constant value ih =>
    intro i here
    obtain ⟨j, there, row⟩ := ih i here
    exact ⟨j, there, here.node there ascending row.lt rfl row⟩
  | anotherTail first rest ih ih' | anotherStatement first rest ih ih' =>
    intro i here
    obtain ⟨m, there, row⟩ := ih i here
    obtain ⟨j, last, row'⟩ := ih' m there
    exact ⟨j, last, by simpa [Phrase.subtrees] using row.append row'⟩
  | function word params opening inner closing ih ih' =>
    intro i here
    obtain ⟨a, there, before⟩ := ih (i + 1) (here.skip word)
    obtain ⟨m, there', row⟩ := there.body (before.mono le_rfl (Nat.le_succ a)) opening (by decide) ih'
    have last := there'.skip closing
    exact ⟨m + 1, last, here.enclosed last ascending rfl row (by rintro _ ⟨⟩)⟩
  | lambda word params arrow result ih ih' =>
    intro i here
    obtain ⟨a, there, before⟩ := ih (i + 1) (here.skip word)
    obtain ⟨j, last, row⟩ := ih' (a + 1) (there.skip arrow)
    have le := before.le
    have le' := row.le
    exact ⟨j, last, here.node last ascending (by omega) rfl (row.mono (by omega) le_rfl)⟩
  | lastElement label value next ih ih' =>
    intro i here
    obtain ⟨m, there, before⟩ := ih i here
    obtain ⟨j, last, row⟩ := ih' m there
    have le := before.le
    have lt : m < j := value.number_le there last
    exact ⟨j, last, here.node last ascending (by omega) rfl (row.mono le le_rfl)⟩
  | anotherElement label value next rest ih ih' ih'' =>
    intro i here
    obtain ⟨a, there, before⟩ := ih i here
    obtain ⟨m, there', row⟩ := ih' a there
    obtain ⟨j, last, row'⟩ := ih'' (m + 1) (there'.skip next)
    have le := before.le
    have lt : a < m := value.number_le there there'
    have later := row'.mono (Nat.le_succ m) le_rfl
    exact ⟨j, last, .follow (here.node there' ascending (by omega) rfl (row.mono le le_rfl)) later⟩
  | anotherName name next rest ih =>
    intro i here
    obtain ⟨j, last, row⟩ := ih (i + 2) ((here.skip name).skip next)
    exact ⟨j, last, row.mono (by omega) le_rfl⟩
  | parameters left names right ih =>
    intro i here
    obtain ⟨j, there, row⟩ := ih (i + 1) (here.skip left)
    exact ⟨j + 1, there.skip right, row.mono (by omega) (by omega)⟩
  | semicolon next rest ih | declare next rest ih | initial next rest ih =>
    intro i here
    obtain ⟨j, there, row⟩ := ih (i + 1) (here.skip next)
    exact ⟨j, there, row.mono (by omega) le_rfl⟩
  | body inner ih => exact inner.laid_body ascending ih
  | branch word condition opening inner closing ih ih' =>
    intro i here
    obtain ⟨a, there, before⟩ := ih (i + 1) (here.skip word)
    obtain ⟨m, there', row⟩ := there.body (before.mono le_rfl (Nat.le_succ a)) opening (by decide) ih'
    have last := there'.skip closing
    exact ⟨m + 1, last, here.enclosed last ascending rfl (row.append (.nil le_rfl)) (by rintro _ ⟨⟩)⟩
  | whileLoop word condition opening repeated closing ih ih' =>
    intro i here
    obtain ⟨a, there, before⟩ := ih (i + 1) (here.skip word)
    obtain ⟨m, there', row⟩ := there.body (before.mono le_rfl (Nat.le_succ a)) opening (by decide) ih'
    have last := there'.skip closing
    exact ⟨m + 1, last, here.enclosed last ascending rfl row (by rintro _ ⟨⟩)⟩
  | branches word condition opening inner otherwise other closing ih ih' ih'' =>
    intro i here
    obtain ⟨a, there, before⟩ := ih (i + 1) (here.skip word)
    obtain ⟨b, there', row⟩ := there.body (before.mono le_rfl (Nat.le_succ a)) opening (by decide) ih'
    obtain ⟨m, there'', row'⟩ := there'.body row otherwise (by decide) ih''
    have last := there''.skip closing
    exact ⟨m + 1, last, here.enclosed last ascending rfl row' (by rintro _ ⟨⟩)⟩
  | forLoop word counter range first dots high opening repeated closing ih ih' ih'' =>
    intro i here
    obtain ⟨l, there, low⟩ := ih (i + 3) (((here.skip word).skip counter).skip range)
    obtain ⟨h, there', high⟩ := ih' (l + 1) (there.skip dots)
    have bounds := low.append (high.mono (Nat.le_succ l) (Nat.le_succ h))
    obtain ⟨m, there'', row⟩ := there'.body bounds opening (by decide) ih''
    have last := there''.skip closing
    exact ⟨m + 1, last, here.enclosed last ascending rfl (row.mono (by omega) le_rfl) (by rintro _ ⟨⟩)⟩
  | print word arguments ih | retValue word arguments ih =>
    intro i here
    obtain ⟨j, there, row⟩ := ih (i + 1) (here.skip word)
    exact ⟨j, there, here.node there ascending row.le rfl (row.mono (by omega) le_rfl)⟩
  | ret word next =>
    intro i here
    have there := here.skip word
    exact ⟨i + 1, there, here.node there ascending (by omega) rfl (.nil (by omega))⟩
  | assign target next value ih ih' =>
    intro i here
    obtain ⟨m, there, row⟩ := ih i here
    obtain ⟨j, last, row'⟩ := ih' (m + 1) (there.skip_of next)
    have all := row.append (row'.mono (by omega) le_rfl)
    exact ⟨j, last, here.node last ascending all.lt rfl all⟩
  | effect target next last ih =>
    intro i here
    obtain ⟨j, there, row⟩ := ih i here
    exact ⟨j, there, here.node there ascending row.lt rfl row⟩
  | lastDeclaration name initial next ih =>
    intro i here
    obtain ⟨j, there, row⟩ := ih (i + 1) (here.skip name)
    exact ⟨j, there, here.node there ascending row.le rfl (row.mono (by omega) le_rfl)⟩
  | anotherDeclaration name initial next rest ih ih' =>
    intro i here
    obtain ⟨m, there, row⟩ := ih (i + 1) (here.skip name)
    obtain ⟨j, last, row'⟩ := ih' (m + 1) (there.skip next)
    have later := row'.mono (Nat.le_succ m) le_rfl
    exact ⟨j, last, .follow (here.node there ascending row.le rfl (row.mono (Nat.le_succ i) le_rfl)) later⟩

/-- The span of a program covers the tokens that were read; without tokens, the end of input. -/
theorem Cursor.At.covers_read (there : d.At ts j) :
    ((Cursor.ofTokens ts).spanTo d).Covers ts.toList 0 (j - 1) := by
  have here := Cursor.At.ofTokens ts
  match j with
  | 0 =>
    have none : d.last = none := by rw [there.last]; rfl
    have rest : d.rest = ts.tokens := there.rest
    have same : (Cursor.ofTokens ts).spanTo d = (Cursor.ofTokens ts).nextSpan := by
      simp [Cursor.spanTo, Cursor.lastSpan, Cursor.nextSpan, Cursor.ofTokens, none, rest, there.stop, Span.upTo]
    rw [same]
    exact here.covers_next
  | k + 1 => exact here.covers there (Nat.zero_le k)

/-- The spans of a parsed tree nest: every node covers tokens, its parts lie within it in source order, and a
body without statements has the place of semicolons or of its closing token. -/
theorem spans_nest {source : Text} {p : Program} (parsed : parse source = .ok p) :
    ∃ ts, Lexer.read source = .ok ts ∧ ∀ x, x.Under (.program p) → Placed ts.toList x := by
  obtain ⟨ts, known, accepted⟩ := parse_eq_ok.mp parsed
  obtain ⟨ss, d, parses, -, rfl⟩ := parseTokens_eq_ok.mp accepted
  have ascending := Lexer.read_ascending known
  obtain ⟨j, there, row⟩ := parses.laid ascending 0 (.ofTokens ts)
  have covers := there.covers_read
  have parts : Row ts.toList 0 (j - 1 + 1) (ss.map .statement) := row.mono le_rfl (by omega)
  have body : Row ts.toList 0 (j - 1 + 1) [.body (.mk ((Cursor.ofTokens ts).spanTo d) ss false)] := by
    refine .node ascending covers parts ?_
    rintro b same none
    cases same
    obtain rfl : ss = [] := none
    obtain ⟨between, closing⟩ := parses.semicolons rfl (.ofTokens ts) there
    refine ⟨0, j - 1, covers, nofun, ?_⟩
    match j with
    | 0 => exact .inr ⟨rfl, closing⟩
    | k + 1 => exact .inl fun i ge le => between i ge (Nat.lt_succ_of_le le)
  have program := Row.node (x := .program ⟨_, .mk _ ss false⟩) ascending covers body nofun
  exact ⟨ts, known, (program.covers_mem List.mem_cons_self).1⟩

namespace Example

/-- Two names under one word, a branch with a body that only holds a semicolon and one without anything, and
a string over two lines. -/
def nesting : Text := utf8 "var a := (1 + 2), b;\nif a = b then ; else end\nprint [func() is end, 'x\\\ny']"

end Example

open CellScript.Parser.Example in
theorem spans_nest_branching :
    ∃ p ts, parse nesting = .ok p ∧ Lexer.read nesting = .ok ts ∧
      ∀ x, x.Under (.program p) → Placed ts.toList x := by
  obtain ⟨p, parsed⟩ : ∃ p, parse nesting = .ok p := exists_of_isOk (by decide +kernel)
  obtain ⟨ts, known, placed⟩ := spans_nest parsed
  exact ⟨p, ts, parsed, known, placed⟩

end Parser

end CellScript
