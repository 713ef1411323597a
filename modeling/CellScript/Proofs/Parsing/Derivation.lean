import CellScript.Proofs.Parsing.Grammar

/-! What the parser accepts has a derivation in the grammar, with the tree that the parser returns, exactly
if no comma precedes a closing brace or parenthesis and no semicolon opens a body. With both freedoms
granted, everything it accepts has one. -/
namespace CellScript.Parser

section Derived

variable {free : Leeway}

/-- The symbols still to be read take no freedom that is not granted, a semicolon in front apart. -/
def Cursor.Tame (free : Leeway) (c : Cursor) : Prop := c.symbols.IsChain free.Neighbours

/-- What reading a phrase has to do with deriving it. Of statements the semicolons in front are set
apart; a body has none unless they are allowed. -/
def Phrase.Derived (free : Leeway) (c : Cursor) (used : List Symbol) : Phrase → Prop
  | .statements ss => ∃ count rest, used = .replicate count (.mark .semicolon) ++ rest ∧
    (c.Tame free → Derives free (.statements ss) rest)
  | .body b => c.Tame free → (free.firstSemicolon ∨ c.symbols.head? ≠ some (.mark .semicolon)) →
    Derives free (.body b) used
  | ph => c.Tame free → Derives free ph used

theorem Cursor.Tame.of_append {c d : Cursor} {used : List Symbol} (tame : c.Tame free)
    (read : c.symbols = used ++ d.symbols) : d.Tame free := by
  unfold Tame at tame
  rw [read] at tame
  exact tame.right_of_append

theorem Cursor.Tame.skip {c : Cursor} {a : Symbol} (tame : c.Tame free)
    (step : c.symbols = a :: c.skip.symbols) : c.skip.Tame free := by
  unfold Tame at tame
  rw [step] at tame
  exact tame.of_cons

/-- After what opens a body stands no semicolon, unless that is allowed. -/
theorem Cursor.Tame.opened {c : Cursor} {a : Symbol} (tame : c.Tame free)
    (step : c.symbols = a :: c.skip.symbols) (opening : a ∈ openings) :
    free.firstSemicolon ∨ c.skip.symbols.head? ≠ some (.mark .semicolon) := by
  unfold Tame at tame
  rw [step, List.isChain_cons] at tame
  by_cases head : c.skip.symbols.head? = some (.mark .semicolon)
  · exact (tame.1 _ head).2.imp_right fun apart => absurd ⟨opening, rfl⟩ apart
  · exact .inr head

/-- A comma before a closing mark is allowed. -/
theorem Cursor.Tame.closed {c : Cursor} {b : Symbol} {us : List Symbol} (tame : c.Tame free)
    (step : c.symbols = .mark .comma :: c.skip.symbols) (close : c.skip.symbols = b :: us)
    (closing : b ∈ closings) : free.lastComma := by
  unfold Tame at tame
  rw [step, close, List.isChain_cons_cons] at tame
  exact tame.1.1.resolve_right fun apart => apart ⟨rfl, closing⟩

theorem derives_semicolons {ss : List Statement} {u : List Symbol} {count : Nat}
    (inner : Derives free (.statements ss) u) (allowed : free.firstSemicolon ∨ count = 0) :
    Derives free (.statements ss) (.replicate count (.mark .semicolon) ++ u) := by
  induction count with
  | zero => exact inner
  | succ count ih =>
    have free := allowed.resolve_right nofun
    exact .semicolon free (ih (.inl free))

/-- Between the cursors stand symbols with a property, which they have if they take no freedom that is not
granted. -/
def Spelled (free : Leeway) (D : List Symbol → Prop) (c d : Cursor) : Prop :=
  ∃ used, c.symbols = used ++ d.symbols ∧ (c.Tame free → D used)

/-- A symbol in front of symbols with a property. -/
def Led (a : Symbol) (D : List Symbol → Prop) (used : List Symbol) : Prop :=
  ∃ u, used = a :: u ∧ D u

/-- A symbol between symbols with two properties. -/
def Joined (D : List Symbol → Prop) (a : Symbol) (E : List Symbol → Prop) (used : List Symbol) : Prop :=
  ∃ u v, used = u ++ a :: v ∧ D u ∧ E v

section Spelled

variable {D E F : List Symbol → Prop} {a : Symbol} {c h m d : Cursor} {b : Body}

theorem spelled_nil (rule : D []) : Spelled free D c c := ⟨[], rfl, fun _ => rule⟩

theorem spelled_token (step : c.symbols = a :: c.skip.symbols) (rule : D [a]) : Spelled free D c c.skip :=
  ⟨[a], step, fun _ => rule⟩

theorem Spelled.cons (step : c.symbols = a :: c.skip.symbols) (rest : Spelled free D c.skip d)
    (rule : ∀ u, D u → E (a :: u)) : Spelled free E c d := by
  obtain ⟨u, read, rest⟩ := rest
  exact ⟨a :: u, by rw [step, read]; rfl, fun tame => rule u (rest (tame.skip step))⟩

theorem Spelled.led (step : c.symbols = a :: c.skip.symbols) (rest : Spelled free D c.skip d) :
    Spelled free (Led a D) c d :=
  rest.cons step fun u inner => ⟨u, rfl, inner⟩

theorem Spelled.mono (spelled : Spelled free D c d) (rule : ∀ u, D u → E u) : Spelled free E c d := by
  obtain ⟨u, read, inner⟩ := spelled
  exact ⟨u, read, fun tame => rule u (inner tame)⟩

theorem Spelled.append (first : Spelled free D c m) (rest : Spelled free E m d)
    (rule : ∀ u v, D u → E v → F (u ++ v)) : Spelled free F c d := by
  obtain ⟨u, read, first⟩ := first
  obtain ⟨v, read', rest⟩ := rest
  refine ⟨u ++ v, by rw [read, read', List.append_assoc], fun tame => ?_⟩
  exact rule u v (first tame) (rest (tame.of_append read))

/-- Two phrases with a symbol between them. -/
theorem Spelled.separated (first : Spelled free D c m) (step : m.symbols = a :: m.skip.symbols)
    (rest : Spelled free E m.skip d) (rule : ∀ u v, D u → E v → F (u ++ a :: v)) : Spelled free F c d := by
  obtain ⟨u, read, first⟩ := first
  obtain ⟨v, read', rest⟩ := rest
  refine ⟨u ++ a :: v, by rw [read, step, read', List.append_assoc]; rfl, fun tame => ?_⟩
  exact rule u v (first tame) (rest ((tame.of_append read).skip step))

theorem Spelled.joined (first : Spelled free D c m) (step : m.symbols = a :: m.skip.symbols)
    (rest : Spelled free E m.skip d) : Spelled free (Joined D a E) c d :=
  first.separated step rest fun u v left right => ⟨u, v, rfl, left, right⟩

/-- A phrase between two marks. -/
theorem Spelled.between {l r : Mark} (left : c.kindAt 0 = .mark l) (inner : Spelled free D c.skip m)
    (right : m.kindAt 0 = .mark r) (rule : ∀ u, D u → E (.mark l :: u ++ [.mark r])) :
    Spelled free E c m.skip := by
  obtain ⟨u, read, inner⟩ := inner
  have opened := Cursor.symbols_step left (by rintro ⟨⟩)
  have closed := Cursor.symbols_step right (by rintro ⟨⟩)
  refine ⟨_, ?_, fun tame => rule u (inner (tame.skip opened))⟩
  rw [opened, read, closed, List.append_assoc]
  rfl

/-- A phrase and then a body, with the word that opens it. -/
theorem Spelled.opening {opener : Keyword} (head : Spelled free D c h) (next : h.kindAt 0 = .keyword opener)
    (opens : .word opener ∈ openings)
    (inner : ∃ used, h.skip.symbols = used ++ d.symbols ∧ (Phrase.body b).Derived free h.skip used) :
    Spelled free (Joined D (.word opener) (Derives free (.body b))) c d := by
  obtain ⟨u, read, head⟩ := head
  obtain ⟨v, read', inner⟩ := inner
  have opened := Cursor.symbols_step next (by rintro ⟨⟩)
  refine ⟨u ++ .word opener :: v, by rw [read, opened, read', List.append_assoc]; rfl, fun tame => ?_⟩
  have tame' := tame.of_append read
  exact ⟨u, v, rfl, head tame, inner (tame'.skip opened) (tame'.opened opened opens)⟩

/-- A construct that a word opens, with a phrase before its body. -/
theorem Spelled.block {word opener closer : Keyword} (first : c.kindAt 0 = .keyword word)
    (head : Spelled free D c.skip h) (next : h.kindAt 0 = .keyword opener) (opens : .word opener ∈ openings)
    (inner : ∃ used, h.skip.symbols = used ++ m.symbols ∧ (Phrase.body b).Derived free h.skip used)
    (closing : m.kindAt 0 = .keyword closer)
    (rule : ∀ u v, D u → Derives free (.body b) v →
      E (.word word :: u ++ .word opener :: v ++ [.word closer])) :
    Spelled free E c m.skip := by
  have started := head.led (Cursor.symbols_step first (by rintro ⟨⟩))
  have closed : Spelled free (· = [.word closer]) m m.skip :=
    spelled_token (Cursor.symbols_step closing (by rintro ⟨⟩)) rfl
  refine (started.opening next opens inner).append closed ?_
  rintro _ _ ⟨_, v, rfl, ⟨u, rfl, left⟩, right⟩ rfl
  exact rule u v left right

theorem spelled_branches {span : Span} {e : Expr} {other : Body} {n : Cursor}
    (word : c.kindAt 0 = .keyword .ifWord) (condition : Spelled free (Derives free (.expression e)) c.skip h)
    (next : h.kindAt 0 = .keyword .thenWord)
    (inner : ∃ used, h.skip.symbols = used ++ n.symbols ∧ (Phrase.body b).Derived free h.skip used)
    (next' : n.kindAt 0 = .keyword .elseWord)
    (inner' : ∃ used, n.skip.symbols = used ++ m.symbols ∧ (Phrase.body other).Derived free n.skip used)
    (closing : m.kindAt 0 = .keyword .endWord) :
    Spelled free (Derives free (.statement [.branch span e b other])) c m.skip := by
  have head := condition.opening next (by decide) inner
  refine head.block word next' (by decide) inner' closing fun _ w branch other => ?_
  obtain ⟨u, v, rfl, condition, inner⟩ := branch
  exact .branches condition inner other

theorem spelled_forLoop {span : Span} {low high : Expr} {l : Cursor} (word : c.kindAt 0 = .keyword .forWord)
    (counter : c.skip.kindAt 0 = .name) (range : c.skip.skip.kindAt 0 = .keyword .inWord)
    (first : Spelled free (Derives free (.expression low)) c.skip.skip.skip l)
    (dots : l.kindAt 0 = .mark .dotDot) (last : Spelled free (Derives free (.expression high)) l.skip h)
    (next : h.kindAt 0 = .keyword .loopWord)
    (inner : ∃ used, h.skip.symbols = used ++ m.symbols ∧ (Phrase.body b).Derived free h.skip used)
    (closing : m.kindAt 0 = .keyword .endWord) :
    Spelled free (Derives free (.statement [.forLoop span c.skip.value low high b])) c m.skip := by
  have lower := (first.led (Cursor.symbols_step range (by decide))).led (Cursor.symbols_step counter (by decide))
  have head := lower.joined (Cursor.symbols_step dots (by decide)) last
  refine head.block word next (by decide) inner closing fun _ w bounds repeated => ?_
  obtain ⟨_, v, rfl, ⟨_, rfl, u, rfl, first⟩, last⟩ := bounds
  exact .forLoop first last repeated

theorem spelled_anotherElement {span : Span} {name : Text} {e : Expr} {es : List Element}
    (label : Spelled free (Derives free (.label name)) c h)
    (value : Spelled free (Derives free (.expression e)) h m) (next : m.kindAt 0 = .mark .comma)
    (rest : Parses (.elements es) m.skip d) (others : Spelled free (Derives free (.elements es)) m.skip d) :
    Spelled free (Derives free (.elements (.mk span name e :: es))) c d := by
  obtain ⟨u, read, label⟩ := label
  obtain ⟨v, read', value⟩ := value
  obtain ⟨w, read'', others⟩ := others
  have step := Cursor.symbols_step next (by decide)
  refine ⟨u ++ v ++ .mark .comma :: w, by simp [read, read', step, read'', Token.Kind.symbol], fun tame => ?_⟩
  have tame' := tame.of_append read
  have tame'' := tame'.of_append read'
  cases es with
  | nil =>
    cases rest with
    | noElement close =>
      have none : w = [] := by simpa using read''
      rw [none]
      have free := tame''.closed step (Cursor.symbols_step close (by decide))
        (by simp [closings, Token.Kind.symbol])
      exact .commaElement free (label tame) (value tame')
  | cons => exact .anotherElement (label tame) (value tame') (others (tame''.skip step)) (List.cons_ne_nil _ _)

theorem spelled_anotherName {xs : List Text} (name : c.kindAt 0 = .name)
    (next : c.skip.kindAt 0 = .mark .comma) (rest : Parses (.names xs) c.skip.skip d)
    (others : Spelled free (Derives free (.names xs)) c.skip.skip d) :
    Spelled free (Derives free (.names (c.value :: xs))) c d := by
  obtain ⟨u, read, others⟩ := others
  have step := Cursor.symbols_step name (by decide)
  have step' := Cursor.symbols_step next (by decide)
  refine ⟨.name c.value :: .mark .comma :: u, by rw [step, step', read]; rfl, fun tame => ?_⟩
  have tame' := tame.skip step
  cases xs with
  | nil =>
    cases rest with
    | noName close =>
      have none : u = [] := by simpa using read
      rw [none]
      have free := tame'.closed step' (Cursor.symbols_step close (by decide))
        (by simp [closings, Token.Kind.symbol])
      exact .commaName free
  | cons => exact .anotherName (others (tame'.skip step')) (List.cons_ne_nil _ _)

end Spelled

/-- What the rules read has a derivation unless it takes more freedom than granted, by induction on the
reading. -/
theorem derived_of_parses (free : Leeway) {ph : Phrase} {c d : Cursor} (parses : Parses ph c d) :
    ∃ used, c.symbols = used ++ d.symbols ∧ ph.Derived free c used := by
  induction parses with
  | expression _ _ ihFirst ihRest => exact Spelled.append ihFirst ihRest fun _ _ => .expression
  | noOperator => exact spelled_nil .noOperator
  | operator next _ _ ihRight ihRest =>
    have step := Cursor.symbols_step_of next rfl
    rw [symbol_of_binaryOp next] at step
    exact (Spelled.led step ihRight).append ihRest fun _ _ ⟨_, same, right⟩ rest => same ▸ .operator right rest
  | lastExpression _ _ ihLast => exact Spelled.mono ihLast fun _ => .lastExpression
  | anotherExpression _ next _ ihFirst ihRest =>
    exact Spelled.separated ihFirst (Cursor.symbols_step next (by decide)) ihRest fun _ _ => .anotherExpression
  | operand _ _ _ ihSign ihInner ihTest =>
    obtain ⟨u, read, sign⟩ := ihSign
    obtain ⟨v, read', inner⟩ := ihInner
    obtain ⟨w, read'', test⟩ := ihTest
    refine ⟨u ++ v ++ w, by simp [read, read', read''], fun tame => ?_⟩
    have tame' := tame.of_append read
    exact .operand (sign tame) (inner tame') (test (tame'.of_append read'))
  | noSign => exact spelled_nil .noSign
  | sign next =>
    have step := Cursor.symbols_step_of next rfl
    rw [symbol_of_unaryOp next] at step
    exact spelled_token step .sign
  | noTest => exact spelled_nil .noTest
  | @wordTest t c next word =>
    have step := Cursor.symbols_step next (by decide)
    have step' := Cursor.symbols_step_of word rfl
    refine ⟨.word .isWord :: t.symbols, ?_, fun _ => .test⟩
    rw [step, step', ← symbols_of_typeWord word]
    rfl
  | arrayTest next left right | tupleTest next left right =>
    have step := Cursor.symbols_step next (by decide)
    have opened := Cursor.symbols_step left (by decide)
    have closed := Cursor.symbols_step right (by decide)
    exact ⟨_, by rw [step, opened, closed]; rfl, fun _ => .test⟩
  | read next =>
    have step := Cursor.symbols_step_of next rfl
    rw [symbol_of_readKind next] at step
    exact spelled_token step .read
  | reference next _ ihTails =>
    exact Spelled.cons (Cursor.symbols_step next (by decide)) ihTails fun _ => .reference
  | paren left _ right ihInner => exact Spelled.between left ihInner right fun _ => .paren
  | constant _ ihValue => exact Spelled.mono ihValue fun _ => .constant
  | noTail => exact spelled_nil .noTail
  | anotherTail _ _ ihFirst ihRest => exact Spelled.append ihFirst ihRest fun _ _ => .anotherTail
  | index dot next value =>
    have step := Cursor.symbols_step dot (by decide)
    have step' := Cursor.symbols_step next (by decide)
    exact ⟨_, by rw [step, step']; rfl, fun _ => .index value⟩
  | field dot next =>
    have step := Cursor.symbols_step dot (by decide)
    have step' := Cursor.symbols_step next (by decide)
    exact ⟨_, by rw [step, step']; rfl, fun _ => .field⟩
  | subscript left _ right ihKey => exact Spelled.between left ihKey right fun _ => .subscript
  | emptyCall left right =>
    have opened := Cursor.symbols_step left (by decide)
    have closed := Cursor.symbols_step right (by decide)
    exact ⟨_, by rw [opened, closed]; rfl, fun _ => .emptyCall⟩
  | call left _ right ihArguments => exact Spelled.between left ihArguments right fun _ => .call
  | integer next value => exact spelled_token (Cursor.symbols_step next (by decide)) (.integer value)
  | real next value => exact spelled_token (Cursor.symbols_step next (by decide)) (.real value)
  | string next => exact spelled_token (Cursor.symbols_step next (by decide)) .string
  | trueWord next => exact spelled_token (Cursor.symbols_step next (by decide)) .trueWord
  | falseWord next => exact spelled_token (Cursor.symbols_step next (by decide)) .falseWord
  | emptyWord next => exact spelled_token (Cursor.symbols_step next (by decide)) .emptyWord
  | emptyArray left right =>
    have opened := Cursor.symbols_step left (by decide)
    have closed := Cursor.symbols_step right (by decide)
    exact ⟨_, by rw [opened, closed]; rfl, fun _ => .emptyArray⟩
  | array left _ right ihElements => exact Spelled.between left ihElements right fun _ => .array
  | tuple left _ right ihElements => exact Spelled.between left ihElements right fun _ => .tuple
  | function word _ opening _ closing ihParams ihInner =>
    exact Spelled.block word ihParams opening (by decide) ihInner closing fun _ _ => .function
  | lambda word _ arrow _ ihParams ihResult =>
    have started := Spelled.led (Cursor.symbols_step word (by decide)) ihParams
    exact started.separated (Cursor.symbols_step arrow (by decide)) ihResult
      fun _ _ ⟨_, same, params⟩ result => same ▸ .lambda params result
  | noLabel => exact spelled_nil .noLabel
  | label next assign =>
    have step := Cursor.symbols_step next (by decide)
    have step' := Cursor.symbols_step assign (by decide)
    exact ⟨_, by rw [step, step']; rfl, fun _ => .label⟩
  | noElement => exact spelled_nil .noElement
  | lastElement _ _ _ ihLabel ihValue => exact Spelled.append ihLabel ihValue fun _ _ => .lastElement
  | anotherElement _ _ next rest ihLabel ihValue ihRest =>
    exact spelled_anotherElement ihLabel ihValue next rest ihRest
  | noName => exact spelled_nil .noName
  | lastName name => exact spelled_token (Cursor.symbols_step name (by decide)) .lastName
  | anotherName name next rest ihRest => exact spelled_anotherName name next rest ihRest
  | noParameters => exact spelled_nil .noParameters
  | parameters left _ right ihNames => exact Spelled.between left ihNames right fun _ => .parameters
  | noStatement => exact ⟨[], rfl, 0, [], rfl, fun _ => .noStatement⟩
  | semicolon next _ ihRest =>
    obtain ⟨_, read, count, v, rfl, others⟩ := ihRest
    have step := Cursor.symbols_step next (by decide)
    exact ⟨_ :: _, by rw [step, read]; rfl, count + 1, v, rfl, fun tame => others (tame.skip step)⟩
  | anotherStatement _ _ ihFirst ihRest =>
    obtain ⟨u, read, first⟩ := ihFirst
    obtain ⟨_, read', count, v, rfl, rest⟩ := ihRest
    refine ⟨u ++ .replicate count (.mark .semicolon) ++ v, by simp [read, read'], 0, _, rfl, fun tame => ?_⟩
    exact .anotherStatement count (first tame) (rest (tame.of_append read))
  | body _ ihInner =>
    obtain ⟨_, read, count, v, rfl, inner⟩ := ihInner
    refine ⟨_, read, fun tame first => .body ?_⟩
    exact derives_semicolons (inner tame) (by cases count <;> simp_all [List.replicate_succ])
  | declare word _ ihInner =>
    exact Spelled.cons (Cursor.symbols_step word (by decide)) ihInner fun _ => .declare
  | branch word _ opening _ closing ihCondition ihInner =>
    exact Spelled.block word ihCondition opening (by decide) ihInner closing fun _ _ => .branch
  | branches word _ opening _ otherwise _ closing ihCondition ihInner ihOther =>
    exact spelled_branches word ihCondition opening ihInner otherwise ihOther closing
  | forLoop word counter range _ dots _ opening _ closing ihFirst ihLast ihRepeated =>
    exact spelled_forLoop word counter range ihFirst dots ihLast opening ihRepeated closing
  | whileLoop word _ opening _ closing ihCondition ihRepeated =>
    exact Spelled.block word ihCondition opening (by decide) ihRepeated closing fun _ _ => .whileLoop
  | print word _ ihArguments =>
    exact Spelled.cons (Cursor.symbols_step word (by decide)) ihArguments fun _ => .print
  | ret word => exact spelled_token (Cursor.symbols_step word (by decide)) .ret
  | retValue word _ ihValue =>
    exact Spelled.cons (Cursor.symbols_step word (by decide)) ihValue fun _ => .retValue
  | brk word => exact spelled_token (Cursor.symbols_step word (by decide)) .brk
  | cont word => exact spelled_token (Cursor.symbols_step word (by decide)) .cont
  | assign _ next _ ihTarget ihValue =>
    have step := Cursor.symbols_step_of next rfl
    rw [symbol_of_assignOp next] at step
    exact Spelled.separated ihTarget step ihValue fun _ _ => .assign
  | effect _ _ _ ihTarget => exact Spelled.mono ihTarget fun _ => .effect
  | noInitial => exact spelled_nil .noInitial
  | initial next _ ihValue =>
    exact Spelled.cons (Cursor.symbols_step next (by decide)) ihValue fun _ => .initial
  | lastDeclaration name _ _ ihInitial =>
    exact Spelled.cons (Cursor.symbols_step name (by decide)) ihInitial fun _ => .lastDeclaration
  | anotherDeclaration name _ next _ ihInitial ihRest =>
    have started := Spelled.led (Cursor.symbols_step name (by decide)) ihInitial
    exact started.separated (Cursor.symbols_step next (by decide)) ihRest
      fun _ _ ⟨_, same, initial⟩ rest => same ▸ .anotherDeclaration initial rest

end Derived

section Tidy

variable {free : Leeway}

/-- Symbols that take no freedom that is not granted, whatever stands next to them. -/
structure Neat (free : Leeway) (u : List Symbol) : Prop where
  chain : u.IsChain free.Neighbours
  head : ∀ a ∈ u.head?, a ∉ closings ∧ (free.firstSemicolon ∨ a ≠ .mark .semicolon)
  last : ∀ a ∈ u.getLast?, a ∉ openings ∧ (free.lastComma ∨ a ≠ .mark .comma)

/-- A symbol that takes part in no freedom. -/
def Plain (a : Symbol) : Prop :=
  a ∉ .mark .comma :: .mark .semicolon :: (openings ++ closings)

instance : DecidablePred Plain := fun _ => inferInstanceAs (Decidable (_ ∉ _))

theorem neat_nil : Neat free [] := ⟨.nil, nofun, nofun⟩

theorem neat_single {a : Symbol} (plain : Plain a := by simp [Plain, openings, closings]) :
    Neat free [a] := by
  simp only [Plain, List.mem_cons, List.mem_append, not_or] at plain
  exact ⟨.singleton a, by simp [plain], by simp [plain]⟩

theorem Neat.append {u v : List Symbol} (left : Neat free u) (right : Neat free v) :
    Neat free (u ++ v) := by
  refine ⟨left.chain.append right.chain fun a last b head => ?_, ?_, ?_⟩
  · exact ⟨.inr fun pair => (right.head b head).1 pair.2, .inr fun pair => (left.last a last).1 pair.1⟩
  · cases u with
    | nil => exact right.head
    | cons => exact left.head
  · cases v using List.reverseRecOn with
    | nil => simpa using left.last
    | append_singleton => simpa using right.last

theorem Neat.cons {a : Symbol} {u : List Symbol} (rest : Neat free u)
    (plain : Plain a := by simp [Plain, openings, closings]) : Neat free (a :: u) :=
  (neat_single plain).append rest

theorem neat_cons {a : Symbol} {u : List Symbol}
    (opens : a ∉ .mark .comma :: .mark .semicolon :: closings) (some : u ≠ [])
    (chain : u.IsChain free.Neighbours)
    (head : ∀ b ∈ u.head?, free.firstSemicolon ∨ b ≠ .mark .semicolon)
    (last : ∀ b ∈ u.getLast?, b ∉ openings ∧ (free.lastComma ∨ b ≠ .mark .comma)) :
    Neat free (a :: u) := by
  simp only [List.mem_cons, not_or] at opens
  refine ⟨List.isChain_cons.mpr ⟨fun b next => ?_, chain⟩, by simp [opens], ?_⟩
  · exact ⟨.inr fun pair => opens.1 pair.1, (head b next).imp_right fun other pair => other pair.2⟩
  · intro b final
    rw [List.getLast?_cons_of_ne_nil some] at final
    exact last b final

theorem Neat.head_append {u v : List Symbol} (inner : Neat free u)
    (next : ∀ b ∈ v.head?, b ≠ .mark .semicolon) :
    ∀ b ∈ (u ++ v).head?, free.firstSemicolon ∨ b ≠ .mark .semicolon := by
  intro b head
  cases u with
  | nil => exact .inr (next b head)
  | cons => exact (inner.head b head).2

/-- Between an opening symbol and a closing one. -/
theorem Neat.enclosed {a b : Symbol} {u : List Symbol} (inner : Neat free u)
    (opens : a ∉ .mark .comma :: .mark .semicolon :: closings := by decide)
    (closes : b ∉ .mark .comma :: .mark .semicolon :: openings := by decide) :
    Neat free (a :: u ++ [b]) := by
  simp only [List.mem_cons, not_or] at closes
  refine neat_cons opens (by simp) (inner.chain.append (.singleton b) fun x last y same => ?_)
    (inner.head_append (by simp [closes])) (by simp [closes])
  obtain rfl : b = y := by simpa using same
  exact ⟨(inner.last x last).2.imp_right fun other pair => other pair.1, .inr fun pair => closes.2.1 pair.2⟩

/-- Between the opening of a body and that of the next. -/
theorem Neat.opened {a b : Symbol} {u v : List Symbol} (inner : Neat free u) (rest : Neat free (b :: v))
    (opens : a ∉ .mark .comma :: .mark .semicolon :: closings := by decide)
    (next : b ≠ .mark .semicolon := by decide) : Neat free (a :: (u ++ b :: v)) :=
  neat_cons opens (by simp) (inner.append rest).chain (inner.head_append (by simp [next]))
    (inner.append rest).last

theorem Neat.comma {u v : List Symbol} (left : Neat free u) (right : Neat free v) (some : v ≠ []) :
    Neat free (u ++ .mark .comma :: v) := by
  refine left.append ⟨List.isChain_cons.mpr ⟨fun b head => ?_, right.chain⟩, ?_, ?_⟩
  · exact ⟨.inr fun pair => (right.head b head).1 pair.2, .inr fun pair => absurd pair.1 (by decide)⟩
  · simp [closings]
  · intro a last
    rw [List.getLast?_cons_of_ne_nil some] at last
    exact right.last a last

theorem Neat.last_comma {u : List Symbol} (left : Neat free u) (allowed : free.lastComma) :
    Neat free (u ++ [.mark .comma]) := by
  refine ⟨left.chain.append (.singleton _) fun a last b same => ?_, ?_, ?_⟩
  · exact ⟨.inl allowed, .inr fun pair => (left.last a last).1 pair.1⟩
  · cases u with
    | nil => simp [closings]
    | cons => exact left.head
  · simp [openings, allowed]

theorem Neat.first_semicolon {u : List Symbol} (right : Neat free u) (allowed : free.firstSemicolon) :
    Neat free (.mark .semicolon :: u) := by
  refine ⟨List.isChain_cons.mpr ⟨fun b head => ?_, right.chain⟩, by simp [closings, allowed], ?_⟩
  · exact ⟨.inr fun pair => (right.head b head).1 pair.2, .inl allowed⟩
  · cases u with
    | nil => simp [openings]
    | cons => exact right.last

theorem Neat.semicolons {u : List Symbol} (left : Neat free u) (some : u ≠ []) (count : Nat) :
    Neat free (u ++ .replicate count (.mark .semicolon)) := by
  induction count with
  | zero => simpa using left
  | succ count ih =>
    rw [List.replicate_succ', ← List.append_assoc]
    refine ⟨ih.chain.append (.singleton _) fun a last b same => ?_, ?_, ?_⟩
    · obtain rfl : .mark .semicolon = b := by simpa using same
      exact ⟨.inr fun pair => absurd pair.2 (by decide), .inr fun pair => (ih.last a last).1 pair.1⟩
    · intro a head
      obtain ⟨x, u, rfl⟩ := List.exists_cons_of_ne_nil some
      exact ih.head a head
    · simp [openings]

/-- A derivation of a phrase that cannot be empty has symbols. -/
theorem Derives.length_le {ph : Phrase} {u : List Symbol} (derives : Derives free ph u) :
    ph.least ≤ u.length := by
  induction derives with
  | expression _ _ ih | lastExpression _ ih | constant _ ih | effect _ ih =>
    simp only [Phrase.least, List.length_append] at ih ⊢
    omega
  | operand _ _ _ _ ih =>
    simp only [Phrase.least, List.length_append] at ih ⊢
    omega
  | anotherExpression | assign =>
    simp only [Phrase.least, List.length_append, List.length_cons]
    omega
  | _ => simp [Phrase.least]

theorem Derives.ne_nil {ph : Phrase} {u : List Symbol} (derives : Derives free ph u)
    (solid : ph.least = 1 := by rfl) : u ≠ [] := by
  have length := derives.length_le
  rintro rfl
  rw [solid] at length
  cases length

theorem Derives.elements_ne_nil {es : List Element} {u : List Symbol}
    (derives : Derives free (.elements es) u) (more : es ≠ []) : u ≠ [] := by
  cases derives with
  | noElement => exact absurd rfl more
  | lastElement _ value => simp [value.ne_nil]
  | commaElement | anotherElement => simp

theorem Derives.names_ne_nil {xs : List Text} {u : List Symbol} (derives : Derives free (.names xs) u)
    (more : xs ≠ []) : u ≠ [] := by
  cases derives with
  | noName => exact absurd rfl more
  | lastName | commaName | anotherName => simp

theorem neat_test (t : TypeName) : Neat free (.word .isWord :: t.symbols) := by
  cases t with
  | array => exact Neat.enclosed neat_single
  | tuple => exact Neat.enclosed neat_single
  | _ => exact neat_nil.enclosed

theorem Derives.neat {ph : Phrase} {u : List Symbol} (derives : Derives free ph u) : Neat free u := by
  induction derives with
  | noOperator | noSign | noTest | noTail | noLabel | noElement | noName | noParameters | noStatement
  | noInitial => exact neat_nil
  | lastExpression _ ih | constant _ ih | body _ ih | effect _ ih => exact ih
  | expression _ _ ih ih' | anotherTail _ _ ih ih' | lastElement _ _ ih ih' => exact ih.append ih'
  | operand _ _ _ ih ih' ih'' => exact (ih.append ih').append ih''
  | integer | real | string | trueWord | falseWord | emptyWord | lastName | ret | brk | cont =>
    exact neat_single
  | reference _ ih | declare _ ih | print _ ih | retValue _ ih | initial _ ih | lastDeclaration _ ih =>
    exact ih.cons
  | index | field | label => exact Neat.cons neat_single
  | emptyCall | emptyArray => exact neat_nil.enclosed
  | paren _ ih | subscript _ ih | call _ ih | array _ ih | tuple _ ih | parameters _ ih => exact ih.enclosed
  | @sign op => exact neat_single (by cases op <;> decide)
  | @read _ r => exact neat_single (by cases r <;> decide)
  | @test t => exact neat_test t
  | @operator op _ _ _ _ _ _ ih ih' =>
    exact (ih.cons (by cases op <;> decide)).append ih'
  | @assign _ _ op _ _ _ _ _ ih ih' =>
    exact ih.append (ih'.cons (by cases op <;> decide))
  | anotherExpression _ rest ih ih' => exact ih.comma ih' rest.ne_nil
  | anotherElement _ _ rest more ih ih' ih'' => exact (ih.append ih').comma ih'' (rest.elements_ne_nil more)
  | anotherName rest more ih => exact Neat.comma neat_single ih (rest.names_ne_nil more)
  | anotherDeclaration _ rest ih ih' => exact ih.cons.comma ih' rest.ne_nil
  | commaElement allowed _ _ ih ih' => exact (ih.append ih').last_comma allowed
  | commaName allowed => exact Neat.last_comma neat_single allowed
  | semicolon allowed _ ih => exact ih.first_semicolon allowed
  | anotherStatement count first _ ih ih' => exact (ih.semicolons first.ne_nil count).append ih'
  | lambda _ _ ih ih' => exact ih.cons.append ih'.cons
  | function _ _ ih ih' | branch _ _ ih ih' | whileLoop _ _ ih ih' =>
    rw [List.append_assoc]
    exact ih.cons.append ih'.enclosed
  | branches _ _ _ ih ih' ih'' =>
    rw [List.append_assoc, List.append_assoc]
    exact ih.cons.append (ih'.opened ih''.enclosed)
  | forLoop _ _ _ ih ih' ih'' =>
    rw [List.append_assoc]
    exact (ih.cons.cons.cons.append ih'.cons).append ih''.enclosed

theorem Neat.tidy {u : List Symbol} (neat : Neat free u) : free.Tidy u := by
  refine ⟨neat.chain, ?_⟩
  by_cases head : u.head? = some (.mark .semicolon)
  · exact .inl ((neat.head _ head).2.resolve_right fun other => other rfl)
  · exact .inr head

end Tidy

/-- Accepted symbols have a derivation with the returned tree exactly if they take no freedom beyond those
granted. -/
theorem derivable_iff_tidy (free : Leeway) {ts : Lexer.Tokens} {p : Program}
    (accepted : parseTokens ts = .ok p) :
    Derives free (.body p.body) ts.symbols ↔ free.Tidy ts.symbols := by
  refine ⟨fun derives => derives.neat.tidy, fun tidy => ?_⟩
  obtain ⟨ss, d, parses, stop, rfl⟩ := parseTokens_eq_ok.mp accepted
  obtain ⟨_, read, count, rest, rfl, inner⟩ := derived_of_parses free parses
  rw [Cursor.symbols_of_stop stop, List.append_nil] at read
  have same : ts.symbols = .replicate count (.mark .semicolon) ++ rest := read
  have first := tidy.2
  rw [same] at first ⊢
  exact .body (derives_semicolons (inner tidy.1) (by cases count <;> simp_all [List.replicate_succ]))

namespace Example

/-- Tokens of a statement that prints a tuple, with a comma after its only element. -/
def trailing : Lexer.Tokens :=
  ⟨[⟨.keyword .printWord, [], .zero⟩, ⟨.mark .leftBrace, [], .zero⟩, ⟨.integer, [49], .zero⟩,
    ⟨.mark .comma, [], .zero⟩, ⟨.mark .rightBrace, [], .zero⟩], .origin⟩

theorem exists_of_isOk {ε α : Type} {result : Except ε α} (ok : result.isOk) : ∃ a, result = .ok a := by
  cases result with
  | error => cases ok
  | ok a => exact ⟨a, rfl⟩

theorem trailing_accepted : ∃ p, parseTokens trailing = .ok p := exists_of_isOk (by decide +kernel)

theorem trailing_untidy : ¬ Leeway.none.Tidy trailing.symbols := by
  simp [Leeway.Tidy, Leeway.none, Leeway.Neighbours, trailing, Lexer.Tokens.symbols, Token.symbol,
    Token.Kind.symbol, closings, openings]

end Example

open CellScript.Parser.Example in
/-- The parser accepts a comma after the last tuple element, which the grammar does not derive. -/
theorem trailing_comma_underivable :
    ∃ p, parseTokens trailing = .ok p ∧ ∀ b, ¬ Derives .none (.body b) trailing.symbols := by
  obtain ⟨p, accepted⟩ := trailing_accepted
  exact ⟨p, accepted, fun b derives => trailing_untidy derives.neat.tidy⟩

open CellScript.Parser.Example in
/-- With the freedom granted, that program has a derivation. -/
theorem derivable_iff_tidy_trailing :
    ∃ p, parseTokens trailing = .ok p ∧ Derives ⟨true, false⟩ (.body p.body) trailing.symbols := by
  obtain ⟨p, accepted⟩ := trailing_accepted
  refine ⟨p, accepted, (derivable_iff_tidy ⟨true, false⟩ accepted).mpr ?_⟩
  simp [Leeway.Tidy, Leeway.Neighbours, trailing, Lexer.Tokens.symbols, Token.symbol, Token.Kind.symbol,
    closings, openings]

end CellScript.Parser
