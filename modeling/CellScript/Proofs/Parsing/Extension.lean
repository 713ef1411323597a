import CellScript.Proofs.Parsing.Progress

/-! What more tokens at the end of the input change in a run of the parser. A step that stops before the
end looks at nothing that could change. One that fails before the end goes on failing, unless the token it
blames is the last one; one that fails at the end can be completed. Each way of putting steps together
keeps these properties, so a function of the parser has them if the functions it calls do. -/
namespace CellScript.Parser

/-- The kind of the first token; without tokens, the end of input. -/
def leads (ts : List Token) : Token.Kind := (ts.head?.map (·.kind)).getD .endOfInput

theorem leads_append {ts us : List Token} {kinds : List Token.Kind} (same : ts.map (·.kind) = kinds) :
    leads (ts ++ us) = kinds.headD (leads us) := by
  subst same
  cases ts <;> rfl

namespace Cursor

/-- The cursor if more tokens followed, and another end. -/
def followed (c : Cursor) (ts : List Token) (stop : Span) : Cursor := ⟨c.rest ++ ts, c.last, stop⟩

/-- A token is left, or one has been read. -/
def Live (c : Cursor) : Prop := c.rest ≠ [] ∨ c.last ≠ none

/-- The second cursor stands at the first one or after it. -/
inductive Onward : Cursor → Cursor → Prop where
  | here (c : Cursor) : Onward c c
  | next {c d : Cursor} (later : Onward c.skip d) : Onward c d

variable {c d m : Cursor} {ts : List Token} {stop : Span}

theorem followed_nil : c.followed [] c.stop = c := by simp [followed]

theorem rest_followed : (c.followed ts stop).rest = c.rest ++ ts := rfl

theorem kindAt_followed (some : c.rest ≠ []) (ts : List Token) (stop : Span) :
    (c.followed ts stop).kindAt 0 = c.kindAt 0 := by
  obtain ⟨t, us, rest⟩ := List.exists_cons_of_ne_nil some
  simp [kindAt, followed, rest]

theorem kindAt_eq_leads (c : Cursor) : c.kindAt 0 = leads c.rest := by
  rw [kindAt]
  cases c.rest <;> rfl

theorem kindAt_end (none : c.rest = []) : c.kindAt 0 = .endOfInput := by simp [kindAt, none]

theorem kindAt_followed_end (none : c.rest = []) : (c.followed ts stop).kindAt 0 = leads ts := by
  cases ts <;> simp [kindAt, followed, none, leads]

theorem nextSpan_followed (some : c.rest ≠ []) (ts : List Token) (stop : Span) :
    (c.followed ts stop).nextSpan = c.nextSpan := by
  obtain ⟨t, us, rest⟩ := List.exists_cons_of_ne_nil some
  simp [nextSpan, followed, rest]

theorem value_followed (some : c.rest ≠ []) : (c.followed ts stop).value = c.value := by
  obtain ⟨t, us, rest⟩ := List.exists_cons_of_ne_nil some
  simp [value, followed, rest]

theorem lastSpan_followed (live : c.Live) (ts : List Token) (stop : Span) :
    (c.followed ts stop).lastSpan = c.lastSpan := by
  cases last : c.last with
  | none =>
    rw [lastSpan, lastSpan, nextSpan_followed (live.resolve_right (by simp [last]))]
    rfl
  | some span => simp [lastSpan, followed, last]

theorem skip_followed (some : c.rest ≠ []) : (c.followed ts stop).skip = c.skip.followed ts stop := by
  obtain ⟨t, us, rest⟩ := List.exists_cons_of_ne_nil some
  simp [skip, followed, rest]

theorem skip_end (none : c.rest = []) : c.skip = c := by simp [skip, none]

theorem live_skip (some : c.rest ≠ []) : c.skip.Live := by
  obtain ⟨t, us, rest⟩ := List.exists_cons_of_ne_nil some
  simp [Live, skip, rest]

theorem Live.skip (live : c.Live) : c.skip.Live := by
  by_cases none : c.rest = []
  · rwa [skip_end none]
  · exact live_skip none

theorem Onward.trans (first : c.Onward m) (second : m.Onward d) : c.Onward d := by
  induction first with
  | here => exact second
  | next _ ih => exact .next (ih second)

theorem onward_skip (c : Cursor) : c.Onward c.skip := .next (.here _)

theorem Onward.live (onward : c.Onward d) (live : c.Live) : d.Live := by
  induction onward with
  | here => exact live
  | next _ ih => exact ih live.skip

theorem Onward.suffix (onward : c.Onward d) : d.rest <:+ c.rest := by
  induction onward with
  | here => exact List.suffix_rfl
  | next _ ih =>
    rw [rest_skip] at ih
    exact ih.trans (List.tail_suffix _)

theorem Onward.eq_of_end (onward : c.Onward d) (none : c.rest = []) : d = c := by
  induction onward with
  | here => rfl
  | next _ ih =>
    rw [skip_end none] at ih
    exact ih none

theorem Onward.end (onward : c.Onward d) (none : c.rest = []) : d.rest = [] := by
  rwa [onward.eq_of_end none]

theorem Onward.last_token (onward : c.Onward d) (some : d.rest ≠ []) : c.rest.getLast? = d.rest.getLast? := by
  obtain ⟨us, whole⟩ := onward.suffix
  rw [← whole, List.getLast?_append, List.getLast?_eq_some_getLast some]
  rfl

end Cursor

/-- Run at the cursor, the step fails with the error. -/
def Fails {α : Type} (step : Parse α) (c : Cursor) (e : Error) : Prop := step.run c = .error e

section Runs

variable {α β : Type} {c d m : Cursor} {a : α} {e : Error}

theorem Gives.not_fails {step : Parse α} (gives : Gives step c a d) : ¬ Fails step c e := by
  unfold Gives at gives
  unfold Fails
  rw [gives]
  nofun

theorem Gives.unique {step : Parse α} {b : α} (gives : Gives step c a d) (again : Gives step c b m) :
    a = b ∧ d = m := by
  unfold Gives at gives again
  rw [gives] at again
  simpa using again

theorem fails_bind {step : Parse α} {next : α → Parse β} :
    Fails (step >>= next) c e ↔ Fails step c e ∨ ∃ a d, Gives step c a d ∧ Fails (next a) d e := by
  unfold Fails Gives
  rw [StateT.run_bind]
  cases step.run c with
  | error e => simp [bind, Except.bind]
  | ok r => simp [bind, Except.bind, Prod.ext_iff, and_assoc]

theorem Gives.fails_bind {step : Parse α} {next : α → Parse β} (gives : Gives step c a d) :
    Fails (step >>= next) c e ↔ Fails (next a) d e := by
  unfold Gives at gives
  unfold Fails
  rw [StateT.run_bind, gives]
  rfl

theorem Gives.run_bind {step : Parse α} {next : α → Parse β} (gives : Gives step c a d) :
    (step >>= next).run c = (next a).run d := by
  unfold Gives at gives
  rw [StateT.run_bind, gives]
  rfl

@[simp] theorem not_fails_pure : ¬ Fails (pure a : Parse α) c e := nofun

@[simp] theorem fails_failAt {span : Span} {cause : Cause} :
    Fails (failAt span cause : Parse α) c e ↔ e = ⟨span, cause⟩ := by
  constructor
  · rintro ⟨⟩
    rfl
  · rintro rfl
    rfl

@[simp] theorem fails_get {next : Cursor → Parse β} :
    Fails (get >>= next) c e ↔ Fails (next c) c e := Gives.fails_bind rfl

@[simp] theorem fails_peek {next : Token.Kind → Parse β} :
    Fails (peek >>= next) c e ↔ Fails (next (c.kindAt 0)) c e := Gives.fails_bind rfl

@[simp] theorem fails_here {next : Span → Parse β} :
    Fails (here >>= next) c e ↔ Fails (next c.nextSpan) c e := Gives.fails_bind rfl

@[simp] theorem fails_spanFrom {start : Span} {next : Span → Parse β} :
    Fails (spanFrom start >>= next) c e ↔ Fails (next (start.upTo c.lastSpan)) c e := Gives.fails_bind rfl

@[simp] theorem fails_advance {next : Unit → Parse β} :
    Fails (advance >>= next) c e ↔ Fails (next ()) c.skip e := Gives.fails_bind rfl

@[simp] theorem fails_unexpected {what : String} :
    Fails (unexpected what : Parse α) c e ↔
      e = ⟨c.nextSpan, .expected what (c.rest.head?.map (·.value))⟩ :=
  fails_get.trans fails_failAt

theorem fails_unexpected_at {what : String} {t : Token} {ts : List Token} (rest : c.rest = t :: ts) :
    Fails (unexpected what : Parse α) c ⟨t.span, .expected what (some t.value)⟩ := by
  rw [fails_unexpected, Cursor.nextSpan, rest]
  rfl

theorem gives_accept_of {kind : Token.Kind} (next : c.kindAt 0 = kind) :
    Gives (accept kind) c true c.skip := by
  simp [Gives, accept, peek, advance, next]
  rfl

theorem gives_accept_not {kind : Token.Kind} (next : c.kindAt 0 ≠ kind) :
    Gives (accept kind) c false c := by
  simp [Gives, accept, peek, next]
  rfl

end Runs

/-- A token of this kind can be written down without saying more about it. -/
def writable : Token.Kind → Bool
  | .keyword _ | .mark _ | .name => true
  | .integer | .real | .string | .endOfInput => false

section Properties

variable {α β : Type}

/-- A function of the parser, with its bound on steps left open. -/
abbrev Family (α : Type) := Nat → Parse α

/-- With enough steps a run at the cursor succeeds and leaves these tokens. -/
def Completes (F : Family α) (c : Cursor) (left : List Token) : Prop :=
  ∃ a d, d.rest = left ∧ ∃ m, ∀ k, m ≤ k → Gives (F k) c a d

/-- Tokens of these kinds alone are read, before a token of one of the following kinds. -/
def Reads (follow kinds : List Token.Kind) (F : Family α) : Prop :=
  ∀ c ts us, c.rest = ts ++ us → ts.map (·.kind) = kinds → leads us ∈ follow → Completes F c us

/-- Some kinds of tokens complete what the cursor starts, before a token of one of the following kinds. -/
def Unfinished (follow : List Token.Kind) (F : Family α) (c : Cursor) : Prop :=
  ∃ kinds : List Token.Kind, kinds.all writable ∧ ∀ ts us stop, ts.map (·.kind) = kinds →
    leads us ∈ follow → Completes F (c.followed (ts ++ us) stop) us

/-- Whatever follows, a run with at least `n` steps fails. -/
def Refuses (n : Nat) (F : Family α) (c : Cursor) : Prop :=
  ∀ k ts stop, n ≤ k → ∃ e, Fails (F k) (c.followed ts stop) e

/-- The error blames the last token, because of what does not follow it: a comma after a declaration
needs a name, and a bracket or brace after `is` the one that closes it. -/
def Halved (ts : List Token) (e : Error) : Prop :=
  ∃ t, ts.getLast? = some t ∧ e.span = t.span ∧
    (t.kind = .mark .comma ∧ e.cause = .expected "expected statement" (some t.value) ∨
      t.kind ∈ [.mark .leftBracket, .mark .leftBrace] ∧
        e.cause = .expected "expected type indicator after 'is'" (some t.value))

/-- What a failing run with `n` steps says of the tokens. -/
inductive Verdict (n : Nat) (follow : List Token.Kind) (F : Family α) (c : Cursor) (e : Error) : Prop where
  | starved (cause : e.cause = .stepsExhausted)
  | unfinished (incomplete : e.incomplete) (more : Unfinished follow F c)
  | halved (last : Halved c.rest e)
  | refused (complete : e.incomplete = false) (always : Refuses n F c)

/-- Where a run at the cursor with `n` steps stops, it stops with other tokens after it and more steps too:
with any tokens if it leaves some, else with tokens that start with one of the following kinds. Nothing
is said of a run that leaves `loose` tokens. -/
structure SteadyAt (n : Nat) (follow : List Token.Kind) (loose : List Token → Prop) (F : Family α)
    (c : Cursor) : Prop where
  onward {a : α} {d : Cursor} (gives : Gives (F n) c a d) : c.Onward d
  stays {a : α} {d : Cursor} (gives : Gives (F n) c a d) (tight : ¬ loose d.rest) {ts : List Token}
    (fits : d.rest = [] → leads ts ∈ follow) (stop : Span) {k : Nat} (more : n ≤ k) :
    Gives (F k) (c.followed ts stop) a (d.followed ts stop)
  verdict {e : Error} (fails : Fails (F n) c e) : Verdict n follow F c e

/-- No tokens are loose. -/
def never : List Token → Prop := fun _ => False

/-- Steady where tokens are left. -/
def Steady (n : Nat) (follow : List Token.Kind) (loose : List Token → Prop) (F : Family α) : Prop :=
  ∀ c, c.rest ≠ [] → SteadyAt n follow loose F c

/-- At the end of input every failure says that the input is incomplete. -/
def EndsIncomplete (n : Nat) (F : Family α) : Prop :=
  ∀ c e, c.rest = [] → Fails (F n) c e → e.cause = .stepsExhausted ∨ e.incomplete

/-- No run succeeds at the end of input. -/
def Needy (n : Nat) (F : Family α) : Prop := ∀ c a d, c.rest = [] → ¬ Gives (F n) c a d

/-- A run that succeeds at the end of input does so too before a token of one of the following kinds. -/
def Idle (n : Nat) (follow : List Token.Kind) (F : Family α) : Prop :=
  ∀ c a d, c.rest = [] → Gives (F n) c a d → d = c ∧ (c.Live → ∀ ts stop k, leads ts ∈ follow → n ≤ k →
    Gives (F k) (c.followed ts stop) a (c.followed ts stop))

/-- Steady, also at the end of input, where tokens of the given kinds alone would be read. -/
structure Continuable (n : Nat) (follow kinds : List Token.Kind) (loose : List Token → Prop)
    (F : Family α) : Prop where
  steady : Steady n follow loose F
  idle : Idle n follow F
  ends : EndsIncomplete n F
  reads : Reads follow kinds F
  written : kinds.all writable

/-- Continuable, and if tokens are named that would be read, there is no success without tokens. -/
structure Resumable (n : Nat) (follow kinds : List Token.Kind) (loose : List Token → Prop)
    (F : Family α) : Prop extends Continuable n follow kinds loose F where
  needy (some : kinds ≠ []) : Needy n F

end Properties

section Rules

variable {α β : Type} {n : Nat} {follow kinds : List Token.Kind} {loose : List Token → Prop}
  {c d m : Cursor} {e : Error}

theorem Completes.bind {F : Family α} {G : α → Family β} {left left' : List Token}
    (first : Completes F c left) (next : ∀ a d, d.rest = left → Completes (G a) d left') :
    Completes (fun k => F k >>= fun a => G a k) c left' := by
  obtain ⟨a, d, rest, m, gives⟩ := first
  obtain ⟨b, d', rest', m', gives'⟩ := next a d rest
  refine ⟨b, d', rest', max m m', fun k le => gives_bind.mpr ⟨a, d, gives k ?_, gives' k ?_⟩⟩ <;> omega

/-- Whatever follows, the step at the first cursor does what the other does at the second. -/
def Runs (n : Nat) (H : Family α) (c : Cursor) (G : Family α) (d : Cursor) : Prop :=
  ∀ k ts stop, n ≤ k → (H k).run (c.followed ts stop) = (G k).run (d.followed ts stop)

theorem Halved.onward (halved : Halved d.rest e) (onward : c.Onward d) : Halved c.rest e := by
  obtain ⟨t, last, blamed⟩ := halved
  have some : d.rest ≠ [] := by
    rintro none
    simp [none] at last
  exact ⟨t, (onward.last_token some).trans last, blamed⟩

theorem Runs.completes {H G : Family α} {ts left : List Token} {stop : Span} (runs : Runs n H c G d)
    (completes : Completes G (d.followed ts stop) left) : Completes H (c.followed ts stop) left := by
  obtain ⟨a, m, rest, least, gives⟩ := completes
  refine ⟨a, m, rest, max n least, fun k le => ?_⟩
  unfold Gives at gives ⊢
  rw [runs k ts stop (by omega)]
  exact gives k (by omega)

theorem Runs.unfinished {H G : Family α} (runs : Runs n H c G d) (more : Unfinished follow G d) :
    Unfinished follow H c := by
  obtain ⟨kinds, written, completes⟩ := more
  exact ⟨kinds, written, fun ts us stop same leads => runs.completes (completes ts us stop same leads)⟩

theorem Verdict.of_runs {H G : Family α} (verdict : Verdict n follow G d e) (runs : Runs n H c G d)
    (onward : c.Onward d) : Verdict n follow H c e := by
  cases verdict with
  | starved cause => exact .starved cause
  | unfinished incomplete more => exact .unfinished incomplete (runs.unfinished more)
  | halved last => exact .halved (last.onward onward)
  | refused complete always =>
    refine .refused complete fun k ts stop le => ?_
    obtain ⟨e', fails⟩ := always k ts stop le
    unfold Fails at fails ⊢
    exact ⟨e', (runs k ts stop le).trans fails⟩

theorem Runs.same {H G : Family α} (runs : Runs n H c G d) (stop : c.stop = d.stop) :
    (H n).run c = (G n).run d := by
  have run := runs n [] c.stop n.le_refl
  rwa [Cursor.followed_nil, stop, Cursor.followed_nil] at run

theorem Cursor.Onward.stop (onward : c.Onward d) : c.stop = d.stop := by
  induction onward with
  | here => rfl
  | @next c _ _ ih =>
    rw [← ih, Cursor.skip]
    cases c.rest <;> rfl

theorem SteadyAt.of_runs {H G : Family α} (steady : SteadyAt n follow loose G d) (runs : Runs n H c G d)
    (onward : c.Onward d) : SteadyAt n follow loose H c := by
  have same := runs.same onward.stop
  constructor
  case onward =>
    intro a d' gives
    exact onward.trans (steady.onward (same.symm.trans gives))
  case stays =>
    intro a d' gives tight ts fits stop k more
    exact (runs k ts stop more).trans (steady.stays (same.symm.trans gives) tight fits stop more)
  case verdict =>
    intro e fails
    exact (steady.verdict (same.symm.trans fails)).of_runs runs onward

theorem Verdict.mono {F : Family α} {fewer : List Token.Kind} (verdict : Verdict n follow F c e)
    (within : fewer ⊆ follow) : Verdict n fewer F c e := by
  cases verdict with
  | starved cause => exact .starved cause
  | unfinished incomplete more =>
    obtain ⟨kinds, written, completes⟩ := more
    exact .unfinished incomplete
      ⟨kinds, written, fun ts us stop same fits => completes ts us stop same (within fits)⟩
  | halved last => exact .halved last
  | refused complete always => exact .refused complete always

theorem Steady.mono {F : Family α} {fewer : List Token.Kind} (steady : Steady n follow loose F)
    (within : fewer ⊆ follow) : Steady n fewer loose F := by
  intro c some
  obtain ⟨onward, stays, verdict⟩ := steady c some
  exact ⟨onward, fun gives tight _ fits => stays gives tight fun none => within (fits none),
    fun fails => (verdict fails).mono within⟩

theorem Reads.unfinished {F : Family α} (reads : Reads follow kinds F) (written : kinds.all writable)
    (none : c.rest = []) : Unfinished follow F c := by
  refine ⟨kinds, written, fun ts us stop same leads => reads _ ts us ?_ same leads⟩
  rw [Cursor.rest_followed, none, List.nil_append]

theorem Continuable.at {F : Family α} (continuable : Continuable n follow kinds loose F) (live : c.Live) :
    SteadyAt n follow loose F c := by
  by_cases none : c.rest = []
  case neg => exact continuable.steady c none
  constructor
  case onward =>
    intro a d gives
    rw [(continuable.idle c a d none gives).1]
    exact .here c
  case stays =>
    intro a d gives _ ts fits stop k more
    obtain ⟨rfl, again⟩ := continuable.idle c a d none gives
    exact again live ts stop k (fits none) more
  case verdict =>
    intro e fails
    obtain starved | incomplete := continuable.ends c e none fails
    · exact .starved starved
    · exact .unfinished incomplete (continuable.reads.unfinished continuable.written none)

/-- A step can end before tokens of these kinds, with one of the following kinds after them. -/
def Leads (before kinds follow : List Token.Kind) : Prop := ∀ kind ∈ follow, kinds.headD kind ∈ before

instance {before kinds follow : List Token.Kind} : Decidable (Leads before kinds follow) :=
  inferInstanceAs (Decidable (∀ kind ∈ follow, kinds.headD kind ∈ before))

theorem Leads.mem {before : List Token.Kind} {ts us : List Token} (leading : Leads before kinds follow)
    (same : ts.map (·.kind) = kinds) (fits : leads us ∈ follow) : leads (ts ++ us) ∈ before := by
  rw [leads_append same]
  exact leading _ fits

/-- Whatever comes next, a step can end before it that can end before all tokens. -/
theorem leads_map : Leads (follow.map fun kind => kinds.headD kind) kinds follow :=
  fun _ => List.mem_map_of_mem

section Bind

variable {F : Family α} {G : α → Family β} {follow' : List Token.Kind} {loose' : List Token → Prop}

/-- A first step that fails makes both fail, and in the same way. -/
theorem Verdict.bind (verdict : Verdict n follow' F c e) (reads : ∀ a, Reads follow kinds (G a))
    (written : kinds.all writable) (leading : Leads follow' kinds follow) :
    Verdict n follow (fun k => F k >>= fun a => G a k) c e := by
  cases verdict with
  | starved cause => exact .starved cause
  | unfinished incomplete more =>
    obtain ⟨first, written', completes⟩ := more
    refine .unfinished incomplete ⟨first ++ kinds, by simp [written, written'], ?_⟩
    intro ts us stop same fits
    obtain ⟨ts₁, ts₂, rfl, same₁, same₂⟩ := List.map_eq_append_iff.mp same
    rw [List.append_assoc]
    refine (completes ts₁ (ts₂ ++ us) stop same₁ (leading.mem same₂ fits)).bind ?_
    intro a d left
    exact reads a d ts₂ us left same₂ fits
  | halved last => exact .halved last
  | refused complete always =>
    refine .refused complete fun k ts stop more => ?_
    obtain ⟨e', fails⟩ := always k ts stop more
    exact ⟨e', fails_bind.mpr (.inl fails)⟩

/-- If the first step leaves tokens, both together do what the second one does with these. -/
theorem SteadyAt.runs_bind {a : α} (first : SteadyAt n follow' loose' F c) (gives : Gives (F n) c a m)
    (tight : ¬ loose' m.rest) (some : m.rest ≠ []) :
    Runs n (fun k => F k >>= fun a => G a k) c (G a) m :=
  fun _ _ stop more => (first.stays gives tight (fun none => absurd none some) stop more).run_bind

/-- If the first step leaves no tokens and the second one then fails, the input is incomplete. -/
theorem SteadyAt.verdict_at_end {a : α} (first : SteadyAt n follow' loose' F c)
    (next : Continuable n follow kinds loose (G a))
    (leading : Leads follow' kinds follow) (gives : Gives (F n) c a m)
    (tight : ¬ loose' m.rest) (none : m.rest = []) (fails : Fails (G a n) m e) :
    Verdict n follow (fun k => F k >>= fun a => G a k) c e := by
  obtain starved | incomplete := next.ends m e none fails
  · exact .starved starved
  refine .unfinished incomplete ⟨kinds, next.written, fun ts us stop same fits => ?_⟩
  have again {k : Nat} (more : n ≤ k) :=
    first.stays gives tight (fun _ => leading.mem same fits) stop more
  obtain ⟨b, d, rest, least, gives'⟩ := next.reads (m.followed (ts ++ us) stop) ts us
    (by rw [Cursor.rest_followed, none, List.nil_append]) same fits
  refine ⟨b, d, rest, max n least, fun k le => ?_⟩
  exact gives_bind.mpr ⟨a, _, again (by omega), gives' k (by omega)⟩

/-- Two steps in turn. Where the first one leaves loose tokens, the second one leaves loose ones too or
fails. -/
theorem SteadyAt.bind_of (first : SteadyAt n follow' loose' F c) (live : c.Live)
    (next : ∀ a, Continuable n follow kinds loose (G a)) (written : kinds.all writable)
    (leading : Leads follow' kinds follow)
    (covers : ∀ a, follow ⊆ follow' ∨ Needy n (G a))
    (tightens : ∀ a m b d, Gives (G a n) m b d → ¬ loose d.rest → ¬ loose' m.rest)
    (stuck : ∀ a m e, loose' m.rest → Fails (G a n) m e → e.cause = .stepsExhausted ∨ Halved m.rest e) :
    SteadyAt n follow loose (fun k => F k >>= fun a => G a k) c := by
  have later {a : α} {m : Cursor} (gives : Gives (F n) c a m) : SteadyAt n follow loose (G a) m :=
    (next a).at ((first.onward gives).live live)
  constructor
  case onward =>
    intro b d gives
    obtain ⟨a, m, gives, rest⟩ := gives_bind.mp gives
    exact (first.onward gives).trans ((later gives).onward rest)
  case stays =>
    intro b d gives tight ts fits stop k more
    obtain ⟨a, m, gives, rest⟩ := gives_bind.mp gives
    refine gives_bind.mpr ⟨a, _, first.stays gives (tightens a m b d rest tight) (fun none => ?_) stop more,
      (later gives).stays rest tight fits stop more⟩
    have fit := fits (((later gives).onward rest).end none)
    obtain within | needy := covers a
    · exact within fit
    · exact absurd rest (needy m b d none)
  case verdict =>
    intro e fails
    obtain fails | ⟨a, m, gives, fails⟩ := fails_bind.mp fails
    · exact (first.verdict fails).bind (fun a => (next a).reads) written leading
    · by_cases bad : loose' m.rest
      · obtain starved | halved := stuck a m e bad fails
        · exact .starved starved
        · exact .halved (halved.onward (first.onward gives))
      · by_cases none : m.rest = []
        · exact first.verdict_at_end (next a) leading gives bad none fails
        · exact ((later gives).verdict fails).of_runs (first.runs_bind gives bad none) (first.onward gives)

theorem SteadyAt.bind (first : SteadyAt n follow' never F c) (live : c.Live)
    (next : ∀ a, Resumable n follow kinds loose (G a))
    (joins : kinds.all writable ∧ Leads follow' kinds follow) :
    SteadyAt n follow loose (fun k => F k >>= fun a => G a k) c := by
  refine first.bind_of live (fun a => (next a).toContinuable) joins.1 joins.2 (fun a => ?_)
    (fun _ _ _ _ _ _ => id) fun _ _ _ bad _ => bad.elim
  by_cases some : kinds = []
  · subst some
    exact .inl joins.2
  · exact .inr ((next a).needy some)

theorem Steady.bind (first : Steady n follow' never F)
    (next : ∀ a, Resumable n follow kinds loose (G a))
    (joins : kinds.all writable ∧ Leads follow' kinds follow) :
    Steady n follow loose (fun k => F k >>= fun a => G a k) :=
  fun c some => (first c some).bind (.inl some) next joins

theorem EndsIncomplete.bind (first : EndsIncomplete n F) (idle : Idle n follow' F) (next : ∀ a, EndsIncomplete n (G a)) :
    EndsIncomplete n (fun k => F k >>= fun a => G a k) := by
  intro c e none fails
  obtain fails | ⟨a, d, gives, later⟩ := fails_bind.mp fails
  · exact first c e none fails
  · obtain ⟨rfl, -⟩ := idle c a d none gives
    exact next a d e none later

/-- A step that needs a token fails at the end before the next one starts. -/
theorem EndsIncomplete.bind_needy (first : EndsIncomplete n F) (needy : Needy n F) :
    EndsIncomplete n (fun k => F k >>= fun a => G a k) := by
  intro c e none fails
  obtain fails | ⟨a, d, gives, -⟩ := fails_bind.mp fails
  · exact first c e none fails
  · exact absurd gives (needy c a d none)

theorem Reads.bind {first : List Token.Kind} (reads : Reads follow' first F)
    (next : ∀ a, Reads follow kinds (G a)) (leading : Leads follow' kinds follow) :
    Reads follow (first ++ kinds) (fun k => F k >>= fun a => G a k) := by
  intro c ts us rest same fits
  obtain ⟨ts₁, ts₂, rfl, same₁, same₂⟩ := List.map_eq_append_iff.mp same
  rw [List.append_assoc] at rest
  exact (reads c ts₁ (ts₂ ++ us) rest same₁ (leading.mem same₂ fits)).bind
    fun a d left => next a d ts₂ us left same₂ fits

theorem Resumable.bind {before : List Token.Kind} (first : Resumable n follow' before never F)
    (next : ∀ a, Resumable n follow kinds loose (G a))
    (joins : kinds.all writable ∧ Leads follow' kinds follow) :
    Resumable n follow (before ++ kinds) loose (fun k => F k >>= fun a => G a k) := by
  constructor
  case needy =>
    intro some c b d none gives
    obtain ⟨a, m, gives, rest⟩ := gives_bind.mp gives
    by_cases read : before = []
    · obtain ⟨rfl, -⟩ := first.idle c a m none gives
      exact (next a).needy (by simpa [read] using some) m b d none rest
    · exact first.needy read c a m none gives
  constructor
  case steady => exact first.steady.bind next joins
  case ends => exact first.ends.bind first.idle fun a => (next a).ends
  case reads => exact first.reads.bind (fun a => (next a).reads) joins.2
  case written => rw [List.all_append, first.written, joins.1, Bool.and_self]
  case idle =>
    intro c b d none gives
    obtain ⟨a, m, gives, rest⟩ := gives_bind.mp gives
    obtain ⟨rfl, again⟩ := first.idle c a m none gives
    obtain ⟨rfl, again'⟩ := (next a).idle m b d none rest
    refine ⟨rfl, fun live ts stop k fits more => gives_bind.mpr ⟨a, _, again live ts stop k ?_ more, ?_⟩⟩
    · by_cases some : kinds = []
      · have fit := joins.2 _ fits
        rwa [some] at fit
      · exact absurd rest ((next a).needy some d b d none)
    · exact again' live ts stop k fits more

theorem Reads.andThen {before : List Token.Kind} (first : ∀ follow, Reads follow before F)
    (next : ∀ a, Reads follow kinds (G a)) :
    Reads follow (before ++ kinds) (fun k => F k >>= fun a => G a k) :=
  (first _).bind next leads_map

/-- A first step after which it does not matter what follows. -/
theorem Resumable.andThen {before : List Token.Kind} (first : ∀ follow, Resumable n follow before never F)
    (next : ∀ a, Resumable n follow kinds loose (G a)) (written : kinds.all writable) :
    Resumable n follow (before ++ kinds) loose (fun k => F k >>= fun a => G a k) :=
  (first _).bind next ⟨written, leads_map⟩

end Bind

section Succ

variable {F B : Family α}

/-- What a function does without steps left. -/
def exhausted : Parse α := do failAt (← here) .stepsExhausted

theorem not_gives_exhausted {a : α} : ¬ Gives exhausted c a d := nofun

theorem fails_exhausted (fails : Fails (exhausted : Parse α) c e) : e.cause = .stepsExhausted := by
  have same : e = ⟨c.nextSpan, .stepsExhausted⟩ :=
    fails_failAt.mp (fails_here.mp fails)
  rw [same]

theorem Steady.zero (step : F 0 = exhausted) : Steady 0 follow loose F := by
  intro c _
  constructor
  case onward =>
    intro a d gives
    rw [step] at gives
    exact absurd gives not_gives_exhausted
  case stays =>
    intro a d gives
    rw [step] at gives
    exact absurd gives not_gives_exhausted
  case verdict =>
    intro e fails
    rw [step] at fails
    exact .starved (fails_exhausted fails)

theorem EndsIncomplete.zero (step : F 0 = exhausted) : EndsIncomplete 0 F := by
  intro c e _ fails
  rw [step] at fails
  exact .inl (fails_exhausted fails)

theorem Resumable.zero (step : F 0 = exhausted) (reads : Reads follow kinds F)
    (written : kinds.all writable) : Resumable 0 follow kinds loose F := by
  have none {c d : Cursor} {a : α} (gives : Gives (F 0) c a d) : False := by
    rw [step] at gives
    exact not_gives_exhausted gives
  constructor
  case needy => exact fun _ c a d _ gives => none gives
  constructor
  case steady => exact .zero step
  case idle => exact fun c a d _ gives => (none gives).elim
  case ends => exact .zero step
  case reads => exact reads
  case written => exact written

theorem Completes.succ {left : List Token} (step : ∀ k, F (k + 1) = B k) (completes : Completes B c left) :
    Completes F c left := by
  obtain ⟨a, d, rest, m, gives⟩ := completes
  refine ⟨a, d, rest, m + 1, fun k le => ?_⟩
  obtain ⟨k, rfl⟩ : ∃ j, k = j + 1 := ⟨k - 1, by omega⟩
  rw [step]
  exact gives k (by omega)

theorem Verdict.succ (step : ∀ k, F (k + 1) = B k) (verdict : Verdict n follow B c e) :
    Verdict (n + 1) follow F c e := by
  cases verdict with
  | starved cause => exact .starved cause
  | unfinished incomplete more =>
    obtain ⟨kinds, written, completes⟩ := more
    exact .unfinished incomplete
      ⟨kinds, written, fun ts us stop same fits => (completes ts us stop same fits).succ step⟩
  | halved last => exact .halved last
  | refused complete always =>
    refine .refused complete fun k ts stop le => ?_
    obtain ⟨k, rfl⟩ : ∃ j, k = j + 1 := ⟨k - 1, by omega⟩
    rw [step]
    exact always k ts stop (by omega)

theorem Steady.succ (step : ∀ k, F (k + 1) = B k) (steady : Steady n follow loose B) :
    Steady (n + 1) follow loose F := by
  intro c some
  constructor
  case onward =>
    intro a d gives
    rw [step] at gives
    exact (steady c some).onward gives
  case stays =>
    intro a d gives tight ts fits stop k le
    rw [step] at gives
    obtain ⟨k, rfl⟩ : ∃ j, k = j + 1 := ⟨k - 1, by omega⟩
    rw [step]
    exact (steady c some).stays gives tight fits stop (by omega)
  case verdict =>
    intro e fails
    rw [step] at fails
    exact ((steady c some).verdict fails).succ step

theorem EndsIncomplete.succ (step : ∀ k, F (k + 1) = B k) (ends : EndsIncomplete n B) : EndsIncomplete (n + 1) F := by
  unfold EndsIncomplete
  rw [step]
  exact ends

theorem Reads.succ (step : ∀ k, F (k + 1) = B k) (reads : Reads follow kinds B) : Reads follow kinds F :=
  fun c ts us rest same fits => (reads c ts us rest same fits).succ step

theorem Resumable.succ (step : ∀ k, F (k + 1) = B k) (resumable : Resumable n follow kinds loose B) :
    Resumable (n + 1) follow kinds loose F := by
  constructor
  case needy =>
    intro some
    unfold Needy
    rw [step]
    exact resumable.needy some
  constructor
  case steady => exact resumable.steady.succ step
  case ends => exact resumable.ends.succ step
  case reads => exact resumable.reads.succ step
  case written => exact resumable.written
  case idle =>
    intro c a d none gives
    rw [step] at gives
    obtain ⟨same, again⟩ := resumable.idle c a d none gives
    refine ⟨same, fun live ts stop k fits le => ?_⟩
    obtain ⟨k, rfl⟩ : ∃ j, k = j + 1 := ⟨k - 1, by omega⟩
    rw [step]
    exact again live ts stop k fits (by omega)

/-- A function that needs a token has nothing to say about success at the end. -/
theorem Resumable.of_needy (steady : Steady n follow loose F) (ends : EndsIncomplete n F) (needy : Needy n F)
    (reads : Reads follow kinds F) (written : kinds.all writable) :
    Resumable n follow kinds loose F :=
  ⟨⟨steady, fun c a d none gives => absurd gives (needy c a d none), ends, reads, written⟩,
    fun _ => needy⟩

end Succ

section Steps

variable {F : Family α} {G : α → Family β}

/-- A step that gives the same, whatever follows. -/
theorem steadyAt_gives {a : α} (onward : c.Onward d)
    (gives : ∀ k ts stop, n ≤ k → Gives (F k) (c.followed ts stop) a (d.followed ts stop)) :
    SteadyAt n follow loose F c := by
  have now : Gives (F n) c a d := by
    have given := gives n [] c.stop n.le_refl
    rwa [Cursor.followed_nil, onward.stop, Cursor.followed_nil] at given
  constructor
  case onward =>
    intro b d' gives'
    rwa [(gives'.unique now).2]
  case stays =>
    intro b d' gives' _ ts _ stop k more
    obtain ⟨rfl, rfl⟩ := gives'.unique now
    exact gives k ts stop more
  case verdict => exact fun fails => absurd fails now.not_fails

theorem reads_pure {a : α} : Reads follow [] (fun _ => pure a) := by
  intro c ts us rest same _
  obtain rfl := List.map_eq_nil_iff.mp same
  exact ⟨a, c, rest, 0, fun _ _ => gives_pure.mpr ⟨rfl, rfl⟩⟩

theorem idle_pure {a : α} : Idle n follow (fun _ => pure a) := by
  intro c b d _ gives
  obtain ⟨rfl, rfl⟩ := gives_pure.mp gives
  exact ⟨rfl, fun _ _ _ _ _ _ => gives_pure.mpr ⟨rfl, rfl⟩⟩

theorem ends_pure {a : α} : EndsIncomplete n (fun _ => pure a) := fun _ _ _ fails => absurd fails not_fails_pure

theorem resumable_pure {a : α} : Resumable n follow [] loose (fun _ => pure a) := by
  constructor
  case needy => exact fun some => absurd rfl some
  constructor
  case steady =>
    exact fun c _ => steadyAt_gives (.here c) fun _ _ _ _ => gives_pure.mpr ⟨rfl, rfl⟩
  case idle => exact idle_pure
  case ends => exact ends_pure
  case reads => exact reads_pure
  case written => rfl

theorem SteadyAt.of_fails {F : Family α} (fails : Fails (F n) c e) (verdict : Verdict n follow F c e) :
    SteadyAt n follow loose F c := by
  constructor
  case onward => exact fun gives => absurd fails gives.not_fails
  case stays => exact fun gives => absurd fails gives.not_fails
  case verdict =>
    intro e' fails'
    have same : e = e' := Except.error.inj (fails.symm.trans fails')
    rwa [← same]

/-- A step that says what it found instead of the expected fails whatever follows. -/
theorem steadyAt_fails {step : Parse α} (fails : Fails step c e) (complete : e.incomplete = false)
    (always : ∀ ts stop, ∃ e, Fails step (c.followed ts stop) e) :
    SteadyAt n follow loose (fun _ => step) c :=
  .of_fails fails (.refused complete fun _ ts stop _ => always ts stop)

theorem steady_unexpected {what : String} : Steady n follow loose (fun _ => (unexpected what : Parse α)) := by
  intro c some
  obtain ⟨t, ts, rest⟩ := List.exists_cons_of_ne_nil some
  exact steadyAt_fails (fails_unexpected_at rest) rfl fun ts stop => ⟨_, fails_unexpected.mpr rfl⟩

theorem ends_unexpected {what : String} : EndsIncomplete n (fun _ => (unexpected what : Parse α)) := by
  intro c e none fails
  rw [fails_unexpected.mp fails, none]
  exact .inr rfl

theorem needy_unexpected {what : String} : Needy n (fun _ => (unexpected what : Parse α)) :=
  fun _ _ _ _ => gives_unexpected

/-- A step that only looks. -/
theorem runs_look {step : Parse α} {f : Cursor → α} (looks : ∀ c, Gives step c (f c) c)
    (same : ∀ ts stop, f (c.followed ts stop) = f c) :
    Runs n (fun k => step >>= fun a => G a k) c (G (f c)) c := by
  intro k ts stop _
  rw [(looks _).run_bind, same]

theorem Steady.look {step : Parse α} {f : Cursor → α} (looks : ∀ c, Gives step c (f c) c)
    (same : ∀ c : Cursor, c.rest ≠ [] → ∀ ts stop, f (c.followed ts stop) = f c)
    (next : ∀ a, Steady n follow loose (G a)) :
    Steady n follow loose (fun k => step >>= fun a => G a k) :=
  fun c some => (next _ c some).of_runs (runs_look looks (same c some)) (.here c)

theorem Steady.here {G : Span → Family β} (next : ∀ start, Steady n follow loose (G start)) :
    Steady n follow loose (fun k => Parser.here >>= fun start => G start k) :=
  .look (fun _ => rfl) (fun _ => Cursor.nextSpan_followed) next

theorem Steady.peek {G : Token.Kind → Family β} (next : ∀ kind, Steady n follow loose (G kind)) :
    Steady n follow loose (fun k => Parser.peek >>= fun kind => G kind k) :=
  .look (fun _ => rfl) (fun _ => Cursor.kindAt_followed) next

theorem EndsIncomplete.here {G : Span → Family β} (next : ∀ start, EndsIncomplete n (G start)) :
    EndsIncomplete n (fun k => Parser.here >>= fun start => G start k) :=
  fun c e none fails => next _ c e none (fails_here.mp fails)

theorem EndsIncomplete.peek {G : Token.Kind → Family β} (next : EndsIncomplete n (G .endOfInput)) :
    EndsIncomplete n (fun k => Parser.peek >>= fun kind => G kind k) := by
  intro c e none fails
  have later := fails_peek.mp fails
  rw [c.kindAt_end none] at later
  exact next c e none later

theorem Reads.spanFrom {start : Span} {G : Span → Family β} (next : ∀ span, Reads follow kinds (G span)) :
    Reads follow kinds (fun k => Parser.spanFrom start >>= fun span => G span k) := by
  intro c ts us rest same fits
  obtain ⟨b, d, left, m, gives⟩ := next (start.upTo c.lastSpan) c ts us rest same fits
  exact ⟨b, d, left, m, fun k le => gives_spanFrom.mpr (gives k le)⟩

/-- The place of the last token does not change with what follows. -/
theorem Resumable.spanFrom {start : Span} {G : Span → Family β}
    (next : ∀ span, Resumable n follow kinds loose (G span)) :
    Resumable n follow kinds loose (fun k => Parser.spanFrom start >>= fun span => G span k) := by
  have looks (c : Cursor) : Gives (Parser.spanFrom start) c (start.upTo c.lastSpan) c := rfl
  constructor
  case needy =>
    intro some c b d none gives
    exact (next _).needy some c b d none ((gives_bind_of (looks c)).mp gives)
  constructor
  case steady =>
    exact .look looks (fun c some ts stop => by rw [c.lastSpan_followed (.inl some)])
      fun span => (next span).steady
  case idle =>
    intro c b d none gives
    obtain ⟨same, again⟩ := (next _).idle c b d none ((gives_bind_of (looks c)).mp gives)
    refine ⟨same, fun live ts stop k fits more => ?_⟩
    have later := again live ts stop k fits more
    rw [← c.lastSpan_followed live ts stop] at later
    exact (gives_bind_of (looks _)).mpr later
  case ends => exact fun c e none fails => (next _).ends c e none ((looks c).fails_bind.mp fails)
  case reads => exact .spanFrom fun span => (next span).reads
  case written => exact (next start).written

theorem runs_advance (some : c.rest ≠ []) :
    Runs n (fun k => advance >>= fun _ => F k) c F c.skip := by
  intro k ts stop _
  have first : Gives advance (c.followed ts stop) () (c.followed ts stop).skip := rfl
  rw [first.run_bind, Cursor.skip_followed some]

theorem Steady.advance (next : Resumable n follow kinds loose F) :
    Steady n follow loose (fun k => Parser.advance >>= fun _ => F k) :=
  fun c some => (next.at (c.live_skip some)).of_runs (runs_advance some) c.onward_skip

section Accept

variable {kind : Token.Kind} {Y N : Family β}

/-- One step or the other, as the next token is of the given kind or not. -/
def either (kind : Token.Kind) (yes no : Family β) : Family β :=
  fun k => accept kind >>= fun b => if b = true then yes k else no k

theorem run_either_yes {k : Nat} (next : c.kindAt 0 = kind) :
    (either kind Y N k).run c = (Y k).run c.skip :=
  (gives_accept_of next).run_bind

theorem run_either_no {k : Nat} (next : c.kindAt 0 ≠ kind) : (either kind Y N k).run c = (N k).run c :=
  (gives_accept_not next).run_bind

theorem Steady.accept {before : List Token.Kind} (yes : Resumable n follow before loose Y)
    (no : Steady n follow loose N) : Steady n follow loose (either kind Y N) := by
  intro c some
  by_cases next : c.kindAt 0 = kind
  · refine (yes.at (c.live_skip some)).of_runs (fun k ts stop _ => ?_) c.onward_skip
    rw [run_either_yes (by rwa [Cursor.kindAt_followed some]), Cursor.skip_followed some]
  · refine (no c some).of_runs (fun k ts stop _ => ?_) (.here c)
    rw [run_either_no (by rwa [Cursor.kindAt_followed some])]

theorem run_either_end {k : Nat} (token : kind ≠ .endOfInput) (none : c.rest = []) :
    (either kind Y N k).run c = (N k).run c :=
  run_either_no (by rw [c.kindAt_end none]; exact token.symm)

theorem EndsIncomplete.accept (no : EndsIncomplete n N) (token : kind ≠ .endOfInput) : EndsIncomplete n (either kind Y N) :=
  fun c e none fails => no c e none ((run_either_end token none).symm.trans fails)

theorem Needy.accept (no : Needy n N) (token : kind ≠ .endOfInput) : Needy n (either kind Y N) :=
  fun c a d none gives => no c a d none ((run_either_end token none).symm.trans gives)

theorem Reads.accept (no : Reads follow kinds N) (other : ∀ k ∈ follow, kinds.headD k ≠ kind) :
    Reads follow kinds (either kind Y N) := by
  intro c ts us rest same fits
  obtain ⟨a, d, left, m, gives⟩ := no c ts us rest same fits
  refine ⟨a, d, left, m, fun k le => (run_either_no ?_).trans (gives k le)⟩
  rw [c.kindAt_eq_leads, rest, leads_append same]
  exact other _ fits

theorem Reads.accepted (yes : Reads follow kinds Y) : Reads follow (kind :: kinds) (either kind Y N) := by
  intro c ts us rest same fits
  obtain ⟨t, ts, rfl, rfl, kinds⟩ := List.map_eq_cons_iff.mp same
  have next : c.kindAt 0 = t.kind := by simp [Cursor.kindAt, rest]
  have left : c.skip.rest = ts ++ us := by rw [Cursor.rest_skip, rest]; rfl
  obtain ⟨a, d, left, m, gives⟩ := yes c.skip ts us left kinds fits
  exact ⟨a, d, left, m, fun k le => (run_either_yes next).trans (gives k le)⟩

/-- At the end of input the second step runs. -/
theorem Resumable.accept {before : List Token.Kind} (yes : Resumable n follow before loose Y)
    (no : Resumable n follow kinds loose N)
    (apart : kind ≠ .endOfInput ∧ ∀ k ∈ follow, kinds.headD k ≠ kind) :
    Resumable n follow kinds loose (either kind Y N) := by
  obtain ⟨token, other⟩ := apart
  constructor
  case needy => exact fun some => (no.needy some).accept token
  constructor
  case steady => exact .accept yes no.steady
  case ends => exact no.ends.accept token
  case written => exact no.written
  case idle =>
    intro c a d none gives
    obtain ⟨same, again⟩ := no.idle c a d none ((run_either_end token none).symm.trans gives)
    refine ⟨same, fun live ts stop k fits more => (run_either_no ?_).trans (again live ts stop k fits more)⟩
    rw [Cursor.kindAt_followed_end none]
    by_cases some : kinds = []
    · have differs := other _ fits
      rwa [some] at differs
    · exact absurd ((run_either_end token none).symm.trans gives) (no.needy some c a d none)
  case reads => exact no.reads.accept other

/-- A choice of which the last way is to fail needs what the first one does. -/
theorem Resumable.acceptElse {what : String} (yes : Resumable n follow kinds loose Y)
    (token : writable kind) :
    Resumable n follow (kind :: kinds) loose (either kind Y fun _ => unexpected what) := by
  have some : kind ≠ .endOfInput := by
    rintro rfl
    cases token
  exact .of_needy (.accept yes steady_unexpected) (ends_unexpected.accept some)
    (needy_unexpected.accept some) yes.reads.accepted
    (by rw [List.all_cons, token, yes.written, Bool.and_self])

end Accept

section Expect

variable {kind : Token.Kind} {name context : String}

theorem expect_eq (next : c.kindAt 0 = kind) (token : kind ≠ .endOfInput) :
    Gives (expect kind name context) c c.value c.skip := by
  have given : Gives (expect kind name context >>= pure) c c.value c.skip :=
    (gives_expect token).mpr ⟨next, gives_pure.mpr ⟨rfl, rfl⟩⟩
  rwa [bind_pure] at given

theorem expect_fails (next : c.kindAt 0 ≠ kind) :
    Fails (expect kind name context) c e ↔
      Fails (unexpected ("expected " ++ name ++ " " ++ context) : Parse Text) c e := by
  unfold expect
  rw [(show Gives get c c c from rfl).fails_bind]
  cases rest : c.rest with
  | nil => simp
  | cons t ts =>
    have other : t.kind ≠ kind := by simpa [Cursor.kindAt, rest] using next
    simp [other]

theorem reads_expect (token : kind ≠ .endOfInput) : Reads follow [kind] (fun _ => expect kind name context) := by
  intro c ts us rest same _
  obtain ⟨t, rfl, rfl⟩ := List.map_eq_singleton_iff.mp same
  refine ⟨c.value, c.skip, ?_, 0, fun _ _ => expect_eq ?_ token⟩
  · rw [Cursor.rest_skip, rest]
    rfl
  · rw [c.kindAt_eq_leads, rest]
    rfl

theorem resumable_expect (token : writable kind) :
    Resumable n follow [kind] loose (fun _ => expect kind name context) := by
  have some : kind ≠ .endOfInput := by
    rintro rfl
    cases token
  have refused {c : Cursor} (next : c.kindAt 0 ≠ kind) {a : Text} {d : Cursor} :
      ¬ Gives (expect kind name context) c a d := by
    intro gives
    exact gives.not_fails ((expect_fails next).mpr (fails_unexpected.mpr rfl))
  refine .of_needy ?_ ?_ ?_ ?_ (by rw [List.all_cons, token]; rfl)
  · intro c left
    by_cases next : c.kindAt 0 = kind
    · refine SteadyAt.of_runs (G := fun _ => pure c.value) (d := c.skip)
        (resumable_pure.at (c.live_skip left)) (fun k ts stop _ => ?_) c.onward_skip
      have gives : Gives (expect kind name context) (c.followed ts stop) _ _ :=
        expect_eq (by rwa [Cursor.kindAt_followed left]) some
      rw [Cursor.value_followed left, Cursor.skip_followed left] at gives
      exact gives
    · obtain ⟨t, ts, rest⟩ := List.exists_cons_of_ne_nil left
      refine steadyAt_fails ((expect_fails next).mpr (fails_unexpected_at rest)) rfl fun ts stop =>
        ⟨_, (expect_fails ?_).mpr (fails_unexpected.mpr rfl)⟩
      rwa [Cursor.kindAt_followed left]
  · intro c e none fails
    have next : c.kindAt 0 ≠ kind := by
      rw [c.kindAt_end none]
      exact some.symm
    exact ends_unexpected (n := n) c e none ((expect_fails next).mp fails)
  · intro c a d none
    refine refused ?_
    rw [c.kindAt_end none]
    exact some.symm
  · exact reads_expect some

theorem Reads.expectName {G : Text → Family β} (next : ∀ name, Reads follow kinds (G name)) :
    Reads follow (.name :: kinds) (fun k => Parser.expectName context >>= fun name => G name k) :=
  .andThen (fun _ => reads_expect (by nofun)) next

theorem Reads.expectMark {m : Mark} (next : Reads follow kinds F) :
    Reads follow (.mark m :: kinds) (fun k => Parser.expectMark m context >>= fun _ => F k) :=
  .andThen (fun _ => .andThen (fun _ => reads_expect (by nofun)) fun _ => reads_pure) fun _ => next

theorem Reads.expectWord {word : Keyword} (next : Reads follow kinds F) :
    Reads follow (.keyword word :: kinds) (fun k => Parser.expectWord word context >>= fun _ => F k) :=
  .andThen (fun _ => .andThen (fun _ => reads_expect (by nofun)) fun _ => reads_pure) fun _ => next

theorem resumable_expectMark {m : Mark} : Resumable n follow [.mark m] loose (fun _ => expectMark m context) :=
  .andThen (fun _ => resumable_expect rfl) (fun _ => resumable_pure) rfl

theorem resumable_expectWord {k : Keyword} :
    Resumable n follow [.keyword k] loose (fun _ => expectWord k context) :=
  .andThen (fun _ => resumable_expect rfl) (fun _ => resumable_pure) rfl

theorem Resumable.expectName {G : Text → Family β} (next : ∀ name, Resumable n follow kinds loose (G name)) :
    Resumable n follow (.name :: kinds) loose (fun k => Parser.expectName context >>= fun name => G name k) :=
  .andThen (fun _ => resumable_expect rfl) next (next []).written

theorem EndsIncomplete.expectName {G : Text → Family β} :
    EndsIncomplete n (fun k => Parser.expectName context >>= fun name => G name k) := by
  have first : Resumable n [] [.name] never (fun _ => Parser.expectName context) := resumable_expect rfl
  exact first.ends.bind_needy (first.needy (by nofun))

theorem Resumable.expectMark {m : Mark} (next : Resumable n follow kinds loose F) :
    Resumable n follow (.mark m :: kinds) loose (fun k => Parser.expectMark m context >>= fun _ => F k) :=
  .andThen (fun _ => resumable_expectMark) (fun _ => next) next.written

theorem Resumable.expectWord {word : Keyword} (next : Resumable n follow kinds loose F) :
    Resumable n follow (.keyword word :: kinds) loose (fun k => Parser.expectWord word context >>= fun _ => F k) :=
  .andThen (fun _ => resumable_expectWord) (fun _ => next) next.written

end Expect

section Peek

variable {G : Token.Kind → Family β}

theorem gives_peek_of {k : Nat} {b : β} (none : c.rest = []) :
    Gives (peek >>= fun kind => G kind k) c b d ↔ Gives (G .endOfInput k) c b d := by
  rw [gives_peek, c.kindAt_end none]

/-- A choice by the next token. What it does at the end of input it must do before a following token. -/
theorem Continuable.peek (each : ∀ kind, Steady n follow loose (G kind)) (ends : EndsIncomplete n (G .endOfInput))
    (idle : Needy n (G .endOfInput) ∨
      Idle n follow (G .endOfInput) ∧ ∀ kind ∈ follow, G kind = G .endOfInput)
    (reads : ∀ kind ∈ follow, Reads follow kinds (G (kinds.headD kind))) (written : kinds.all writable) :
    Continuable n follow kinds loose (fun k => Parser.peek >>= fun kind => G kind k) := by
  constructor
  case steady => exact .peek each
  case ends => exact .peek ends
  case written => exact written
  case idle =>
    intro c b d none gives
    obtain needy | ⟨idle, same⟩ := idle
    · exact absurd ((gives_peek_of none).mp gives) (needy c b d none)
    · obtain ⟨unread, again⟩ := idle c b d none ((gives_peek_of none).mp gives)
      refine ⟨unread, fun live ts stop k fits more => gives_peek.mpr ?_⟩
      rw [Cursor.kindAt_followed_end none, same _ fits]
      exact again live ts stop k fits more
  case reads =>
    intro c ts us rest same fits
    obtain ⟨b, d, left, m, gives⟩ := reads _ fits c ts us rest same fits
    refine ⟨b, d, left, m, fun k le => gives_peek.mpr ?_⟩
    rw [c.kindAt_eq_leads, rest, leads_append same]
    exact gives k le

theorem Resumable.peek (each : ∀ kind, Steady n follow loose (G kind))
    (stop : Resumable n follow kinds loose (G .endOfInput))
    (same : ∀ kind ∈ follow, G (kinds.headD kind) = G .endOfInput) :
    Resumable n follow kinds loose (fun k => Parser.peek >>= fun kind => G kind k) := by
  constructor
  case needy =>
    intro some c b d none gives
    exact stop.needy some c b d none ((gives_peek_of none).mp gives)
  refine .peek each stop.ends ?_ (fun kind fits => ?_) stop.written
  · by_cases some : kinds = []
    · exact .inr ⟨stop.idle, fun kind fits => by simpa [some] using same kind fits⟩
    · exact .inl (stop.needy some)
  · rw [same kind fits]
    exact stop.reads

end Peek

theorem Reads.advance {kind : Token.Kind} (next : Reads follow kinds F) :
    Reads follow (kind :: kinds) (fun k => Parser.advance >>= fun _ => F k) := by
  intro c ts us rest same fits
  obtain ⟨t, ts, rfl, rfl, kinds⟩ := List.map_eq_cons_iff.mp same
  have left : c.skip.rest = ts ++ us := by
    rw [Cursor.rest_skip, rest]
    rfl
  obtain ⟨a, d, left, m, gives⟩ := next c.skip ts us left kinds fits
  exact ⟨a, d, left, m, fun k le => gives_advance.mpr (gives k le)⟩

end Steps

end Rules

end CellScript.Parser
