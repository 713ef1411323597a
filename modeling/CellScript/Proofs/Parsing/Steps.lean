import CellScript.Parser

/-! When a step of the parser succeeds, with what value, and where it leaves the cursor: one rule for each
way of putting steps together and for each step that reads a single token. -/
namespace CellScript.Parser

namespace Cursor

/-- The cursor after the next token. -/
def skip (c : Cursor) : Cursor :=
  match c.rest with
  | t :: rest => { c with rest := rest, last := some t.span }
  | [] => c

/-- The text of the next token. -/
def value (c : Cursor) : Text := (c.rest.head?.map (·.value)).getD []

/-- The span from the next token of the first cursor to the last token before the second one. -/
def spanTo (c d : Cursor) : Span := c.nextSpan.upTo d.lastSpan

theorem kindAt_one (c : Cursor) : c.kindAt 1 = c.skip.kindAt 0 := by
  unfold kindAt skip
  cases rest : c.rest <;> simp [rest]

theorem next_eq {c : Cursor} {t : Token} {ts : List Token} (rest : c.rest = t :: ts) :
    t.kind = c.kindAt 0 ∧ t.value = c.value ∧ t.span = c.nextSpan := by
  simp [kindAt, value, nextSpan, rest]

theorem rest_eq_of_kind {c : Cursor} {kind : Token.Kind} (next : c.kindAt 0 = kind)
    (token : kind ≠ .endOfInput) :
    ∃ t, c.rest = t :: c.skip.rest ∧ t.kind = kind ∧ t.value = c.value := by
  unfold kindAt at next
  unfold skip value
  cases rest : c.rest with
  | nil => simp [rest] at next; exact absurd next.symm token
  | cons t ts => exact ⟨t, by simp, by simpa [rest] using next, by simp⟩

end Cursor

/-- Run at the first cursor, the step succeeds with the value and leaves the second cursor. -/
def Gives {α : Type} (step : Parse α) (c : Cursor) (a : α) (d : Cursor) : Prop :=
  step.run c = .ok (a, d)

section Combinators

variable {α β : Type} {c d : Cursor} {a : α} {b : β}

@[simp] theorem gives_pure {b : α} : Gives (pure b) c a d ↔ a = b ∧ d = c := by
  unfold Gives
  rw [StateT.run_pure]
  simp [pure, Except.pure, eq_comm]

@[simp low] theorem gives_bind {step : Parse α} {next : α → Parse β} :
    Gives (step >>= next) c b d ↔ ∃ a e, Gives step c a e ∧ Gives (next a) e b d := by
  unfold Gives
  rw [StateT.run_bind]
  cases step.run c with
  | error e => simp [bind, Except.bind]
  | ok r => simp [bind, Except.bind, Prod.ext_iff, and_assoc]

theorem gives_bind_of {step : Parse α} {next : α → Parse β} {e : Cursor}
    (first : Gives step c a e) : Gives (step >>= next) c b d ↔ Gives (next a) e b d := by
  unfold Gives at first ⊢
  rw [StateT.run_bind, first]
  rfl

@[simp] theorem gives_get {next : Cursor → Parse β} :
    Gives (get >>= next) c b d ↔ Gives (next c) c b d := gives_bind_of rfl

@[simp] theorem gives_peek {next : Token.Kind → Parse β} :
    Gives (peek >>= next) c b d ↔ Gives (next (c.kindAt 0)) c b d := gives_bind_of rfl

@[simp] theorem gives_here {next : Span → Parse β} :
    Gives (here >>= next) c b d ↔ Gives (next c.nextSpan) c b d := gives_bind_of rfl

@[simp] theorem gives_spanFrom {start : Span} {next : Span → Parse β} :
    Gives (spanFrom start >>= next) c b d ↔ Gives (next (start.upTo c.lastSpan)) c b d :=
  gives_bind_of rfl

@[simp] theorem gives_advance {next : Unit → Parse β} :
    Gives (advance >>= next) c b d ↔ Gives (next ()) c.skip b d := gives_bind_of rfl

@[simp] theorem gives_ite {p : Prop} [Decidable p] {yes no : Parse α} :
    Gives (if p then yes else no) c a d ↔ if p then Gives yes c a d else Gives no c a d := by
  split <;> rfl

@[simp] theorem gives_failAt {span : Span} {cause : Cause} : ¬ Gives (failAt span cause) c a d := nofun

@[simp] theorem gives_unexpected {what : String} : ¬ Gives (unexpected what) c a d := nofun

@[simp] theorem gives_accept {kind : Token.Kind} {next : Bool → Parse β} :
    Gives (accept kind >>= next) c b d ↔
      if c.kindAt 0 = kind then Gives (next true) c.skip b d else Gives (next false) c b d := by
  split
  next same => exact gives_bind_of (by simp [Gives, accept, peek, advance, same]; rfl)
  next other => exact gives_bind_of (by simp [Gives, accept, peek, other]; rfl)

theorem gives_expect {kind : Token.Kind} {name context : String} {next : Text → Parse β}
    (token : kind ≠ .endOfInput) :
    Gives (expect kind name context >>= next) c b d ↔
      c.kindAt 0 = kind ∧ Gives (next c.value) c.skip b d := by
  unfold expect
  rw [bind_assoc, gives_get]
  cases rest : c.rest with
  | nil => simp [Cursor.kindAt, rest, token.symm, gives_bind]
  | cons t ts =>
    by_cases same : t.kind = kind
    · simp [Cursor.kindAt, Cursor.value, rest, same]
    · simp [Cursor.kindAt, rest, same, gives_bind]

@[simp] theorem gives_expectName {context : String} {next : Text → Parse β} :
    Gives (expectName context >>= next) c b d ↔
      c.kindAt 0 = .name ∧ Gives (next c.value) c.skip b d := gives_expect nofun

@[simp] theorem gives_expectMark {m : Mark} {context : String} {next : Unit → Parse β} :
    Gives (expectMark m context >>= next) c b d ↔
      c.kindAt 0 = .mark m ∧ Gives (next ()) c.skip b d := by
  unfold expectMark
  simp only [bind_assoc, pure_bind]
  exact gives_expect nofun

@[simp] theorem gives_expectWord {k : Keyword} {context : String} {next : Unit → Parse β} :
    Gives (expectWord k context >>= next) c b d ↔
      c.kindAt 0 = .keyword k ∧ Gives (next ()) c.skip b d := by
  unfold expectWord
  simp only [bind_assoc, pure_bind]
  exact gives_expect nofun

end Combinators

end CellScript.Parser
