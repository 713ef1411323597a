import CellScript.Proofs.Checking.History

/-! What lasts from one step of a session to the next. Steps may succeed or fail at any point:
afterwards only the global frame is open, no call is, no global name is lost, and a name has got
another cell only if the program that ran declares it among its own statements. -/
namespace CellScript

open Run

namespace Scopes

variable {s t u : Scopes} {names : List Text}

/-- The innermost frame may have grown, and of the global names only the given ones may have got
other cells. -/
structure Rebinds (names : List Text) (s t : Scopes) : Prop where
  grown : s.Grown t
  others : ∀ name ∉ names, t.globals.get? name = s.globals.get? name

theorem keeping_rebinds (names : List Text) : Keeping (Rebinds names) where
  refl := fun s => ⟨.refl s, fun _ _ => rfl⟩
  trans := by
    intro s t u first second
    refine ⟨first.grown.trans second.grown, fun name other => ?_⟩
    exact (second.others name other).trans (first.others name other)
  grown := Rebinds.grown

theorem rebinds_bind {name : Text} (given : name ∈ names) (s : Scopes) (c : CellRef) :
    s.Rebinds names (s.bind name c) := by
  refine ⟨.bind s name c, fun other absent => ?_⟩
  obtain ⟨globals, inner⟩ := s
  cases inner with
  | nil =>
    have differs : other ≠ name := fun same => absent (same ▸ given)
    simp only [bind, Bindings.get?_set, if_neg differs]
  | cons f fs => rfl

/-- Growing loses no global name. -/
theorem Grown.isSome_global {name : Text} (grown : s.Grown t)
    (bound : (s.globals.get? name).isSome) : (t.globals.get? name).isSome := by
  cases grown with
  | globals more => exact more name bound
  | frame _ => exact bound

end Scopes

/-! ### Programs -/

theorem Check.mem_declaredNames {ss : List Statement} {name : Text} :
    name ∈ declaredNames ss ↔ ∃ span initial, .declare span name initial ∈ ss := by
  unfold declaredNames
  rw [List.mem_filterMap]
  constructor
  · rintro ⟨s, member, same⟩
    cases s with
    | declare span other initial =>
      obtain rfl : other = name := Option.some.inj same
      exact ⟨span, initial, member⟩
    | _ => cases same
  · rintro ⟨span, initial, member⟩
    exact ⟨_, member, rfl⟩

namespace Eval

variable {names : List Text}

/-- A statement gives another global cell at most to the name that it declares. -/
theorem statement_rebinds (cfg : Settings) (n : Nat) {s : Statement}
    (declared : ∀ span name initial, s = .declare span name initial → name ∈ names) (m : Machine) :
    m.scopes.Rebinds names (reached (statement cfg n s m)).scopes := by
  have keeping := Scopes.keeping_rebinds names
  have orderly : Orderly cfg (Scopes.Rebinds names) (Trace.statement cfg n [] s) := by
    cases n with
    | zero => exact .weaken (.quiet_of_still (.throw _)) keeping
    | succ n =>
      have disc := Trace.discipline cfg n
      cases s with
      | declare span name initial =>
        exact disc.declare_succ [] keeping (Scopes.rebinds_bind (declared span name initial rfl))
          span initial
      | _ =>
        refine (disc.statement_still [] ?_).weaken keeping
        intro span name initial same
        exact Statement.noConfusion same
  have scopes := orderly.scopes m
  rw [((Trace.recorded cfg n).statement [] s).run_eq] at scopes
  exact scopes

theorem statements_rebind (cfg : Settings) (n : Nat) (ss : List Statement)
    (declared : ∀ span name initial, .declare span name initial ∈ ss → name ∈ names) (m : Machine) :
    m.scopes.Rebinds names (reached (ss.forM (statement cfg n) m)).scopes := by
  have keeping := Scopes.keeping_rebinds names
  induction ss generalizing m with
  | nil => exact keeping.refl m.scopes
  | cons s ss ih =>
    have first : m.scopes.Rebinds names (reached (statement cfg n s m)).scopes := by
      apply statement_rebinds
      rintro span name initial rfl
      exact declared span name initial List.mem_cons_self
    change m.scopes.Rebinds names
      (reached (EStateM.bind (statement cfg n s) (fun _ => ss.forM (statement cfg n)) m)).scopes
    unfold EStateM.bind
    generalize statement cfg n s m = r at first
    cases r with
    | error stop m' => exact first
    | ok _ m' =>
      refine keeping.trans first (ih (fun span name initial member => ?_) m')
      exact declared span name initial (List.mem_cons_of_mem s member)

theorem scopes_conclude {r : EStateM.Result Stop Machine Unit}
    (alone : (reached r).scopes.inner = []) : (conclude r).2.scopes = (reached r).scopes := by
  cases r with
  | ok _ m => rfl
  | error stop m =>
    -- only the global frame is open, so that leaving only the global frame changes nothing
    have same : m.scopes.reset = m.scopes := by
      rw [Scopes.reset, ← alone]
      rfl
    cases stop with
    | ret c => rfl
    | brk _ | cont _ | fault _ | exhausted => exact same

/-- A program gives other global cells at most to the names that its own statements declare, and
ends at rest if it starts so. -/
theorem program_rebinds (cfg : Settings) (fuel : Nat) (p : Program) {m : Machine}
    (rest : m.scopes.inner = [] ∧ m.calls = 0) :
    ((program cfg fuel p m).2.scopes.inner = [] ∧ (program cfg fuel p m).2.calls = 0) ∧
      m.scopes.Rebinds (Check.declaredNames p.body.statements) (program cfg fuel p m).2.scopes := by
  obtain ⟨grown, calls⟩ := statements_keep cfg fuel p.body.statements m
  have alone := grown.inner_nil rest.1
  rw [program_eq_conclude, scopes_conclude alone]
  refine ⟨?_, statements_rebind cfg fuel p.body.statements ?_ m⟩
  · have ended := conclude_at_rest ⟨alone, calls.trans rest.2⟩
    rw [scopes_conclude alone] at ended
    exact ended
  · intro span name initial member
    exact Check.mem_declaredNames.mpr ⟨span, initial, member⟩

end Eval

/-! ### Steps -/

namespace Session

inductive Step where
  | run (feed : Feed) (sink : Sink) (path source : Text)
  | compile (path source : Text)
  /-- Runs a tree that was not made from a source here, such as a decoded one. -/
  | execute (feed : Feed) (sink : Sink) (p : Program)
  | evaluate (e : Expr)

def perform (s : Session) : Step → Session
  | .run feed sink path source => (s.run feed sink path source).2
  | .compile _ _ => s
  | .execute feed sink p => (s.execute feed sink p).2
  | .evaluate e => (s.evaluate e).2

/-- Whether a step fails before anything runs, in parsing or in the checks. -/
def refuses (s : Session) : Step → Bool
  | .run _ _ path source | .compile path source => (s.compile path source).failure.isSome
  | .execute .. | .evaluate _ => false

def executed? (s : Session) : Step → Option Program
  | .run _ _ path source =>
    match s.compile path source with
    | ⟨program, _, none⟩ => program
    | ⟨_, _, some _⟩ => none
  | .execute _ _ p => some p
  | .compile .. | .evaluate _ => none

/-- Only the global frame is open, and no call. -/
def AtRest (s : Session) : Prop := s.machine.scopes.inner = [] ∧ s.machine.calls = 0

/-- What may happen to the scopes of a session between two steps, if the given program ran. -/
structure Follows (executed : Option Program) (s t : Session) : Prop where
  rest : t.AtRest
  grown : s.machine.scopes.Grown t.machine.scopes
  rebound : ∀ name,
    t.machine.scopes.globals.get? name ≠ s.machine.scopes.globals.get? name →
      ∃ p, executed = some p ∧ ∃ span initial, .declare span name initial ∈ p.body.statements

variable {s : Session}

theorem AtRest.follows (rest : s.AtRest) (executed : Option Program) : Follows executed s s :=
  ⟨rest, .refl _, fun _ changed => absurd rfl changed⟩

theorem AtRest.execute (rest : s.AtRest) (feed : Feed) (sink : Sink) (p : Program) :
    Follows (some p) s (s.execute feed sink p).2 := by
  obtain ⟨input, connected⟩ := s.machine_connect feed
  have started : ({ (s.connect feed).machine with output := .toSink sink } : Machine).scopes =
      s.machine.scopes ∧ ({ (s.connect feed).machine with output := .toSink sink } : Machine).calls =
      s.machine.calls := by
    rw [connected]
    exact ⟨rfl, rfl⟩
  obtain ⟨ended, rebinds⟩ := Eval.program_rebinds (s.connect feed).config.settings Eval.ample p
    ⟨(congrArg Scopes.inner started.1).trans rest.1, started.2.trans rest.2⟩
  rw [started.1] at rebinds
  refine ⟨ended, rebinds.grown, fun name changed => ⟨p, rfl, ?_⟩⟩
  by_contra undeclared
  refine changed (rebinds.others name fun member => undeclared ?_)
  exact Check.mem_declaredNames.mp member

theorem AtRest.evaluate (rest : s.AtRest) (e : Expr) : Follows none s (s.evaluate e).2 := by
  obtain ⟨scopes, calls⟩ := Eval.expr_keeps s.config.settings Eval.ample e s.machine
  have kept : (s.evaluate e).2.machine =
      reached (Eval.expr s.config.settings Eval.ample e s.machine) := by
    unfold Session.evaluate Eval.expression
    cases Eval.expr s.config.settings Eval.ample e s.machine <;> rfl
  rw [← kept] at scopes calls
  refine ⟨⟨scopes ▸ rest.1, calls.trans rest.2⟩, ?_, fun name changed => ?_⟩
  · rw [← scopes]
    exact .refl _
  · rw [← scopes] at changed
    exact absurd rfl changed

/-- One step keeps a session at rest. -/
theorem AtRest.perform (rest : s.AtRest) (step : Step) :
    Follows (s.executed? step) s (s.perform step) := by
  cases step with
  | compile path source => exact rest.follows _
  | execute feed sink p => exact rest.execute feed sink p
  | evaluate e => exact rest.evaluate e
  | run feed sink path source =>
    unfold Session.perform Session.run executed?
    dsimp only
    rcases s.compile path source with ⟨program, diagnostics, failure⟩
    cases failure with
    | some _ => exact rest.follows _
    | none =>
      cases program with
      | none => exact rest.follows _
      | some p => exact rest.execute feed sink p

theorem AtRest.performAll (rest : s.AtRest) (steps : List Step) :
    (steps.foldl Session.perform s).AtRest := by
  induction steps generalizing s with
  | nil => exact rest
  | cons step steps ih => exact ih (rest.perform step).rest

theorem perform_of_refuses {step : Step} (refused : s.refuses step = true) :
    s.perform step = s := by
  cases step with
  | compile path source => rfl
  | execute feed sink p => cases refused
  | evaluate e => cases refused
  | run feed sink path source =>
    unfold Session.perform Session.run
    unfold refuses at refused
    dsimp only at refused ⊢
    generalize s.compile path source = c at refused
    rcases c with ⟨program, diagnostics, failure⟩
    cases failure with
    | none => cases refused
    | some _ => rfl

/-- Whatever steps a session has taken, successful or not, no frame but the global one and no call
is open. From there a step that fails in parsing or in the checks changes nothing at all, no step
loses a global name, and a global name gets another cell only if the program that the step ran
declares it directly. -/
theorem steps_leave_sessions_safe (config : Config) (shared : Text) (steps : List Step) :
    let s := steps.foldl perform (start config shared)
    s.machine.scopes.depth = 1 ∧ s.machine.calls = 0 ∧
      ∀ step : Step,
        (s.refuses step = true → s.perform step = s) ∧
        s.globals ⊆ (s.perform step).globals ∧
        ∀ name, (s.perform step).machine.scopes.globals.get? name ≠
            s.machine.scopes.globals.get? name →
          ∃ p, s.executed? step = some p ∧
            ∃ span initial, .declare span name initial ∈ p.body.statements := by
  intro s
  have rest : s.AtRest := AtRest.performAll ⟨rfl, rfl⟩ steps
  refine ⟨?_, rest.2, fun step => ?_⟩
  · rw [Scopes.depth, rest.1]
    rfl
  · have follows := rest.perform step
    refine ⟨perform_of_refuses, fun name member => ?_, follows.rebound⟩
    have bound := follows.grown.isSome_global (Bindings.isSome_get?_of_sortedNames member)
    exact List.mem_mergeSort.mpr (Bindings.isSome_get?.mp bound)

end Session

namespace Example

open Session

def narrow : Config := { Config.default with maxCallDepth := 2 }

/-- A program that fails for want of a third call, and a source that does not parse. -/
def mishaps : List Step :=
  [.execute .shared (.unlimited false) countdown, .compile [] (utf8 "var")]

def unknown : Step := .run .shared (.unlimited false) [] (utf8 "print other")

def troubled : Session := mishaps.foldl perform (.start narrow [])

theorem unknown_refused : troubled.refuses unknown = true ∧ utf8 "f" ∈ troubled.globals := by
  decide +kernel

end Example

open Session Example in
/-- The source is refused after the mishaps and changes nothing: the function that the failed
program declared is still known. -/
theorem steps_leave_sessions_safe_mishaps :
    troubled.refuses unknown = true ∧ troubled.perform unknown = troubled ∧
      utf8 "f" ∈ (troubled.perform unknown).globals := by
  obtain ⟨refused, known⟩ := unknown_refused
  obtain ⟨unchanged, kept, -⟩ := (steps_leave_sessions_safe narrow [] mishaps).2.2 unknown
  exact ⟨refused, unchanged refused, kept known⟩

end CellScript
