import CellScript.Proofs.Checking.History

/-! How far functions are lexically scoped. In a checked program a reference inside a call finds its
name in the frames of that call or in the global frame, whoever the callers are. The exception are names
that the top level declares and that the function did not capture because it was made before: there the
frames of the callers come before the global one. -/
namespace CellScript

open Check

/-- A reference that is evaluated while a call is open is resolved in a frame of that call, its own one
or one opened since, or no frame of a caller has the name and the global frame decides. -/
def Moment.Lexical (moment : Moment) : Prop :=
  ∀ call calls span name ts m,
    moment = ⟨call :: calls, .began (.primary (.ref span name ts)) m⟩ →
      (∃ c, m.scopes.own.lookup? name = some c ∧ m.scopes.lookup? name = some c) ∨
        (m.scopes.callers? name = none ∧ m.scopes.lookup? name = m.scopes.globals.get? name)

/-- A reference that is resolved in a frame of a caller, as no frame of the call has the name. It stands
in the function that was called last, whose program declares the name at the top level; no scope around
the reference declares the name, it was not bound before the program, and the function did not capture
it. -/
inductive Escapes (known : Origin → Prop) : Moment → Prop where
  | reference {o : Origin} {c : Context} {f : Closure} {site span : Span} {name : Text}
      {ts : List Tail} {calls : List Activation} {m : Machine} (origin : known o)
      (visit : Visits o (some f.literal) c [] (.primary (.ref span name ts)))
      (declared : name ∈ o.declared) (fresh : name ∉ o.seeds) (outer : name ∉ c.names)
      (uncaptured : f.captured.get? name = none) (unowned : m.scopes.own.lookup? name = none)
      (caller : (m.scopes.callers? name).isSome) :
    Escapes known ⟨⟨f, site⟩ :: calls, .began (.primary (.ref span name ts)) m⟩

theorem Escapes.not_lexical {known : Origin → Prop} {moment : Moment}
    (escapes : Escapes known moment) : ¬ moment.Lexical := by
  intro lexical
  cases escapes with
  | reference _ _ _ _ _ _ unowned caller =>
    rcases lexical _ _ _ _ _ _ rfl with ⟨cell, found, -⟩ | ⟨none, -⟩
    · rw [unowned] at found
      cases found
    · rw [none] at caller
      cases caller

/-- Where a reference begins to be evaluated in a checked program, it is lexical or escapes. -/
theorem Knowledge.Places.lexical_or_escapes {k : Knowledge} {moment : Moment}
    (places : k.Places moment) (tracks : k.tracks) : moment.Lexical ∨ Escapes k.known moment := by
  by_cases lexical : moment.Lexical
  · exact .inl lexical
  right
  unfold Moment.Lexical at lexical
  push Not at lexical
  obtain ⟨call, calls, span, name, ts, m, rfl, inside, outside⟩ := lexical
  obtain ⟨o, home, c, origin, homed, visit, ready⟩ := places span name ts m rfl
  have resolved := m.scopes.lookup?_eq_own_or name
  have unowned : m.scopes.own.lookup? name = none := by
    cases found : m.scopes.own.lookup? name with
    | none => rfl
    | some cell =>
      rw [found, Option.some_or] at resolved
      exact absurd resolved (inside cell found)
  have unheld : name ∉ c.held (call :: calls) := by
    intro member
    have bound := ready.bound tracks name member
    rw [unowned] at bound
    cases bound
  rw [unowned, Option.none_or] at resolved
  cases homed with
  | @inside f site calls seeds =>
    have outer : name ∉ c.names := fun known => unheld (List.mem_append_left _ known)
    have uncaptured : f.captured.get? name = none := by
      rw [← Option.not_isSome_iff_eq_none, Bindings.isSome_get?]
      exact fun stored => unheld (List.mem_append_right _ stored)
    have fresh : name ∉ o.seeds := by
      intro seed
      have bound := seeds tracks name seed
      rw [uncaptured] at bound
      cases bound
    have declared : name ∈ o.declared := by
      rcases visit.known_reference (k.clean o origin) with known | seed | ⟨-, declared⟩
      · exact absurd known outer
      · exact absurd seed fresh
      · exact declared
    cases caller : m.scopes.callers? name with
    | none =>
      rw [caller, Option.none_or] at resolved
      exact absurd resolved (outside caller)
    | some cell =>
      have found : (m.scopes.callers? name).isSome := Option.isSome_of_eq_some caller
      exact .reference origin visit declared fresh outer uncaptured unowned found

/-- In a session of checked programs, a reference inside a call is lexical exactly if it does not escape:
unless its name is declared at the top level of the program that wrote the function called last, the
function was made before that, and a frame of a caller has the name. -/
theorem only_uncaptured_names_escape {cfg : Settings} {os : List Origin} {m : Machine}
    (past : History cfg os m) {p : Program}
    (clean : Clean (Check.program m.scopes.globals.sortedNames p)) (fuel : Nat) :
    ∀ moment ∈ (Trace.program cfg fuel p).moments m,
      moment.Lexical ↔ ¬ Escapes (· ∈ ⟨m.scopes.globals.sortedNames, p⟩ :: os) moment := by
  have known : ∀ o ∈ (⟨m.scopes.globals.sortedNames, p⟩ : Origin) :: os, o.Clean := by
    intro o origin
    rcases List.mem_cons.mp origin with rfl | old
    · exact clean
    · exact past.clean o old
  have ready := History.ready_cons past.ready known
  have origin : (Knowledge.ofOrigins _ known).known ⟨m.scopes.globals.sortedNames, p⟩ :=
    List.mem_cons_self
  intro moment member
  have admits := (Knowledge.program_safe origin cfg fuel).admits m ready moment member
  have either := admits.places.lexical_or_escapes trivial
  exact ⟨fun lexical escapes => escapes.not_lexical lexical, either.resolve_right⟩

namespace Example

/-- Declares a function that reads a global name, then the name, and calls the function from another one
whose parameter has the same name. -/
def shadowed : Program :=
  ⟨.zero, .mk .zero [
    .declare .zero [102] (lone (.literal .zero (.lambda .zero [] (lone (.ref .zero [120] []))))),
    .declare .zero [120] (lone (.literal .zero (.integer .zero 1))),
    .declare .zero [103] (lone (.literal .zero (.lambda .zero [[120]]
      (lone (.ref .zero [102] [.call .zero []]))))),
    .print .zero [lone (.ref .zero [103] [.call .zero
      [lone (.literal .zero (.integer .zero 5))]])]] false⟩

/-- Whether a reference inside a call is resolved in a frame of a caller. -/
def escapes : Moment → Bool
  | ⟨_ :: _, .began (.primary (.ref _ name _)) m⟩ =>
    (m.scopes.own.lookup? name).isNone && (m.scopes.callers? name).isSome
  | _ => false

theorem not_lexical_of_escapes {moment : Moment} (escaped : escapes moment = true) :
    ¬ moment.Lexical := by
  intro lexical
  unfold escapes at escaped
  split at escaped
  next call calls span name ts m =>
    rw [Bool.and_eq_true, Option.isNone_iff_eq_none] at escaped
    rcases lexical call calls span name ts m rfl with ⟨cell, found, -⟩ | ⟨none, -⟩
    · rw [escaped.1] at found
      cases found
    · rw [none] at escaped
      cases escaped.2
  next => cases escaped

theorem shadowed_clean :
    Clean (Check.program Machine.initial.scopes.globals.sortedNames shadowed) := by
  have none : Machine.initial.scopes.globals.sortedNames = [] := List.mergeSort_nil
  rw [none]
  decide

theorem shadowed_escapes :
    ((Trace.program ⟨.right, 8⟩ 60 shadowed).moments .initial).any escapes = true := by
  decide +kernel

end Example

open Example in
/-- The function reads the parameter of its caller, although the name is bound globally. -/
theorem functions_see_callers :
    Clean (Check.program Machine.initial.scopes.globals.sortedNames shadowed) ∧
      ∃ moment ∈ (Trace.program ⟨.right, 8⟩ 60 shadowed).moments .initial, ¬ moment.Lexical := by
  obtain ⟨moment, member, escaped⟩ := List.any_eq_true.mp shadowed_escapes
  exact ⟨shadowed_clean, moment, member, not_lexical_of_escapes escaped⟩

open Example in
/-- In that program the escaping reference is the one to the name that the function did not capture. -/
theorem only_uncaptured_names_escape_shadowed :
    History ⟨.right, 8⟩ [] .initial ∧
      Clean (Check.program Machine.initial.scopes.globals.sortedNames shadowed) ∧
      ∃ moment ∈ (Trace.program ⟨.right, 8⟩ 60 shadowed).moments .initial,
        Escapes (· ∈ [⟨Machine.initial.scopes.globals.sortedNames, shadowed⟩]) moment := by
  refine ⟨.initial, shadowed_clean, ?_⟩
  obtain ⟨moment, member, escaped⟩ := List.any_eq_true.mp shadowed_escapes
  have lexical := only_uncaptured_names_escape .initial shadowed_clean 60 moment member
  refine ⟨moment, member, ?_⟩
  by_contra kept
  exact not_lexical_of_escapes escaped (lexical.mpr kept)

end CellScript
