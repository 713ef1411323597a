import CellScript.Proofs.Checking.Soundness

/-! Checked programs one after the other. Each is checked with the names that are bound globally when
it starts, and may use the functions that those before it left. What is run unchecked in between may
bind names but leaves no functions. -/
namespace CellScript

open Run Check

/-- Whatever a run ended with, its cells and its global names are still there afterwards. -/
theorem Eval.conclude_keeps (r : EStateM.Result Stop Machine Unit) :
    (conclude r).2.heap = (reached r).heap ∧
      (conclude r).2.scopes.globals = (reached r).scopes.globals := by
  cases r with
  | ok _ m => exact ⟨rfl, rfl⟩
  | error stop m => cases stop <;> exact ⟨rfl, rfl⟩

namespace Knowledge

variable {k : Knowledge} {m : Machine}

/-- A program that is known is run soundly. -/
theorem program_safe {o : Origin} (origin : k.known o) (cfg : Settings) (fuel : Nat) :
    Safe k false [] (Trace.program cfg fuel o.program) := by
  exact (Trace.sound k cfg fuel).sequence origin (.outside) .program

theorem Ready.conclude {r : EStateM.Result Stop Machine Unit} (ready : k.Ready [] (reached r)) :
    k.Ready [] (Eval.conclude r).2 := by
  obtain ⟨heap, globals⟩ := Eval.conclude_keeps r
  refine ⟨heap ▸ ready.heap, fun tracks o origin name seed => ?_, fun _ _ member => ?_⟩
  · rw [globals]
    exact ready.seeded tracks o origin name seed
  · exact absurd member List.not_mem_nil

/-- The machine after a known program. -/
theorem Ready.program {o : Origin} {outcome : Eval.Outcome} {m' : Machine} {cfg : Settings}
    {fuel : Nat} (ready : k.Ready [] m) (origin : k.known o)
    (ran : Eval.program cfg fuel o.program m = (outcome, m')) : k.Ready [] m' := by
  have safe := program_safe origin cfg fuel
  have run := (Trace.program_accounts cfg fuel o.program).run_eq
  rw [Eval.program_eq_conclude, ← run] at ran
  have after := (safe.lands m ready).ready_reached
  have concluded := after.conclude
  rw [ran] at concluded
  exact concluded

/-- Where a known program fails, the fault came up at a moment of its run. -/
theorem Ready.raised {o : Origin} {e : RuntimeError} {m' : Machine} {cfg : Settings} {fuel : Nat}
    (ready : k.Ready [] m) (origin : k.known o)
    (failed : Eval.program cfg fuel o.program m = (.failed e, m')) :
    ∃ moment ∈ (Trace.program cfg fuel o.program).moments m, moment.Raises e.fault e.span := by
  have accounts := Trace.program_accounts cfg fuel o.program
  have lands := (program_safe origin cfg fuel).lands m ready
  rw [accounts.run_eq] at lands
  rw [Eval.program_eq_conclude] at failed
  have finished {m : Machine} : (Eval.finish .done m).1 ≠ .failed e := by
    unfold Eval.finish
    dsimp only
    split <;> exact Eval.Outcome.noConfusion
  cases ended : o.program.body.statements.forM (Eval.statement cfg fuel) m with
  | ok a m₁ =>
    rw [ended] at failed
    exact absurd (congrArg Prod.fst failed) finished
  | error stop m₁ =>
    rw [ended] at lands failed
    have fits : stop.Fits false := by
      cases lands
      assumption
    have outcome := congrArg Prod.fst failed
    cases stop with
    | fault e' =>
      cases outcome
      exact accounts.raised m e m₁ ended
    | brk span | cont span => exact absurd fits Bool.false_ne_true
    | ret c => exact absurd outcome finished
    | exhausted => cases outcome

/-- More programs become known. -/
theorem Ready.learn {k' : Knowledge} {names : List Text} (ready : k.Ready names m)
    (more : ∀ o, k.known o → k'.known o) (tracks : k'.tracks → k.tracks)
    (seeds : k'.tracks → ∀ o, k'.known o → k.known o ∨
      ∀ name ∈ o.seeds, (m.scopes.globals.get? name).isSome) : k'.Ready names m where
  heap := by
    intro v member f same
    obtain ⟨o, home, c, self, origin, visit, captured⟩ := ready.heap v member f same
    exact ⟨o, home, c, self, more o origin, visit, fun tracking => captured (tracks tracking)⟩
  seeded := by
    intro tracking o origin name seed
    rcases seeds tracking o origin with known | bound
    · exact ready.seeded (tracks tracking) o known name seed
    · exact bound name seed
  bound := fun tracking => ready.bound (tracks tracking)

/-- The machine has lost no global name, and there are no functions in it that were not there. -/
theorem Ready.onward {m' : Machine} (ready : k.Ready [] m)
    (bound : ∀ name, (m.scopes.globals.get? name).isSome → (m'.scopes.globals.get? name).isSome)
    (stored : ∀ f, .func f ∈ m'.heap.cells → .func f ∈ m.heap.cells) : k.Ready [] m' where
  heap := by
    rintro v member f rfl
    exact ready.heap _ (stored f member) f rfl
  seeded := by
    intro tracks o origin name seed
    exact bound name (ready.seeded tracks o origin name seed)
  bound := fun _ _ member => absurd member List.not_mem_nil

end Knowledge

/-- What is asked where an expression is evaluated on its own: to print it. -/
def Program.printing (e : Expr) : Program := ⟨.zero, .mk .zero [.print .zero [e]] false⟩

/-- What a program or an expression leaves of a machine, whether it was checked or not. -/
inductive Ran (cfg : Settings) (m m' : Machine) : Prop where
  | program {p : Program} {outcome : Eval.Outcome} (ends : Eval.Ends cfg p m outcome m')
  | expression {e : Expr} {fuel : Nat} {r : Except Stop Value}
      (ran : Eval.expression cfg fuel e m = (r, m'))

/-- A global name that is bound stays bound. -/
theorem Ran.bound {cfg : Settings} {m m' : Machine} (ran : Ran cfg m m') (name : Text)
    (bound : (m.scopes.globals.get? name).isSome) : (m'.scopes.globals.get? name).isSome := by
  cases ran with
  | @program p outcome ends =>
    obtain ⟨-, fuel, ran⟩ := ends
    have grown := (Eval.statements_keep cfg fuel p.body.statements m).1
    have after := grown.isSome_globals bound
    rw [← (Eval.conclude_keeps _).2, ← Eval.program_eq_conclude, ran] at after
    exact after
  | @expression e fuel r ran =>
    have same := (Eval.expr_keeps cfg fuel e m).1
    rw [same] at bound
    rw [← Eval.expression_reached, ran] at bound
    exact bound

/-- The states of a machine whose functions come from checked programs, with these programs, the latest
first, and the names with which each of them was checked. What ran besides them left no functions. -/
inductive History (cfg : Settings) : List Origin → Machine → Prop where
  | initial : History cfg [] .initial
  | connect {os : List Origin} {m : Machine} (past : History cfg os m) (input : WordReader)
      (output : Output) : History cfg os { m with input := input, output := output }
  | program {os : List Origin} {m m' : Machine} {p : Program} {outcome : Eval.Outcome}
      (past : History cfg os m) (clean : Clean (Check.program m.scopes.globals.sortedNames p))
      (ends : Eval.Ends cfg p m outcome m') :
    History cfg (⟨m.scopes.globals.sortedNames, p⟩ :: os) m'
  | expression {os : List Origin} {m m' : Machine} {e : Expr} {fuel : Nat} {r : Except Stop Value}
      (past : History cfg os m)
      (clean : Clean (Check.program m.scopes.globals.sortedNames (.printing e)))
      (ran : Eval.expression cfg fuel e m = (r, m')) :
    History cfg (⟨m.scopes.globals.sortedNames, .printing e⟩ :: os) m'
  | unchecked {os : List Origin} {m m' : Machine} (past : History cfg os m) (ran : Ran cfg m m')
      (stored : ∀ f, .func f ∈ m'.heap.cells → .func f ∈ m.heap.cells) : History cfg os m'

theorem Bindings.isSome_get?_of_sortedNames {b : Bindings} {name : Text}
    (member : name ∈ b.sortedNames) : (b.get? name).isSome :=
  isSome_get?.mpr (List.mem_mergeSort.mp member)

/-- What is known when these programs have run. -/
def Knowledge.ofOrigins (os : List Origin) (clean : ∀ o ∈ os, o.Clean) : Knowledge :=
  ⟨fun o => o ∈ os, clean, True⟩

namespace History

variable {cfg : Settings} {os : List Origin} {m : Machine}

theorem clean (past : History cfg os m) : ∀ o ∈ os, o.Clean := by
  induction past with
  | initial => exact fun _ member => absurd member List.not_mem_nil
  | connect _ _ _ ih | unchecked _ _ _ ih => exact ih
  | program _ clean _ ih => exact List.forall_mem_cons.mpr ⟨clean, ih⟩
  | expression _ clean _ ih => exact List.forall_mem_cons.mpr ⟨clean, ih⟩

/-- One more program becomes known that was checked with the names that are bound now. -/
theorem ready_cons {p : Program} {olds : ∀ o ∈ os, o.Clean}
    (ready : (Knowledge.ofOrigins os olds).Ready [] m)
    (clean : ∀ o ∈ (⟨m.scopes.globals.sortedNames, p⟩ : Origin) :: os, o.Clean) :
    (Knowledge.ofOrigins _ clean).Ready [] m := by
  refine ready.learn (fun o => List.mem_cons_of_mem _) id fun _ o origin => ?_
  rcases List.mem_cons.mp origin with rfl | old
  · exact .inr fun name member => Bindings.isSome_get?_of_sortedNames member
  · exact .inl old

theorem ready (past : History cfg os m) : (Knowledge.ofOrigins os past.clean).Ready [] m := by
  induction past with
  | initial =>
    refine ⟨fun v member => absurd member (Array.not_mem_empty v), fun _ o origin => ?_,
      fun _ _ member => ?_⟩
    · exact absurd origin List.not_mem_nil
    · exact absurd member List.not_mem_nil
  | connect _ input output ih => exact ih.withHeap rfl ih.heap
  | program past clean ends ih =>
    have known := (History.program past clean ends).clean
    obtain ⟨-, fuel, ran⟩ := ends
    have ready := ready_cons ih known
    exact ready.program (o := ⟨_, _⟩) List.mem_cons_self ran
  | @expression os m m' e fuel r past clean ran ih =>
    have known := (History.expression past clean ran).clean
    have ready := ready_cons ih known
    have origin : (Knowledge.ofOrigins _ known).known ⟨_, .printing e⟩ := List.mem_cons_self
    have visit : Visits ⟨m.scopes.globals.sortedNames, .printing e⟩ none _ [] (.expr e) :=
      (Visits.program.first).printed List.mem_cons_self
    have safe := (Trace.sound _ cfg fuel).expr origin (.outside) visit
    have after := (safe.lands m ready).ready_reached
    rw [((Trace.recorded cfg fuel).expr [] e).run_eq] at after
    rw [← Eval.expression_reached, ran] at after
    exact after
  | unchecked _ ran stored ih => exact ih.onward ran.bound stored

/-- A function in a cell was written by one of the programs. -/
theorem stored (past : History cfg os m) {f : Closure} (member : .func f ∈ m.heap.cells) :
    ∃ o ∈ os, o.Clean ∧ o.Wrote f := by
  obtain ⟨o, home, c, self, origin, visit, -⟩ := past.ready.heap _ member f rfl
  exact ⟨o, origin, past.clean o origin, home, c, self, visit⟩

end History

namespace Example

/-- Declares a function that reads a global name, calls it, and declares the name after that. -/
def early : Program :=
  ⟨.zero, .mk .zero [
    .declare .zero [102] (lone (.literal .zero (.lambda .zero [] (lone (.ref .zero [120] []))))),
    .print .zero [lone (.ref .zero [102] [.call .zero []])],
    .declare .zero [120] (lone (.literal .zero (.integer .zero 1)))] false⟩

/-- The program at the start of a session. -/
def start : Origin := ⟨Machine.initial.scopes.globals.sortedNames, early⟩

/-- The machine after that program, which failed before it declared the name. -/
def unfinished : Machine := (Eval.program ⟨.right, 8⟩ 60 early .initial).2

theorem early_fails : fails (Eval.program ⟨.right, 8⟩ 60 early .initial).1 = true := by
  decide +kernel

theorem early_clean : Clean (Check.program Machine.initial.scopes.globals.sortedNames early) := by
  have none : Machine.initial.scopes.globals.sortedNames = [] := List.mergeSort_nil
  rw [none]
  decide

theorem unfinished_past : History ⟨.right, 8⟩ [start] unfinished :=
  History.initial.program early_clean (ends_of_fails early_fails)

end Example

end CellScript
