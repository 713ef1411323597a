import CellScript.Proofs.Checking.History

/-! Name checking is sound up to hoisting. A program in which the checks find no error can fail for a
name that is not bound only inside a function that is called before the top level declares the
name. -/
namespace CellScript

open Check

/-- In a session of checked programs, a name that turns out not to be bound is declared at the top
level of the program that wrote the function called last, and the reference stands in the code of
that function. The name is not bound globally at that moment, was not before its program was checked
and is declared in no scope around the reference. -/
theorem unbound_names_are_late {cfg : Settings} {os : List Origin} {m : Machine}
    (past : History cfg os m) {p : Program}
    (clean : Clean (Check.program m.scopes.globals.sortedNames p)) (fuel : Nat) :
    (∀ moment ∈ (Trace.program cfg fuel p).moments m, ∀ name span,
      moment.Raises (.undefinedVariable name) span →
        Late (· ∈ ⟨m.scopes.globals.sortedNames, p⟩ :: os) name moment) ∧
    ∀ e m', Eval.program cfg fuel p m = (.failed e, m') →
      ∀ name, e.fault = .undefinedVariable name →
        ∃ moment ∈ (Trace.program cfg fuel p).moments m,
          moment.Raises (.undefinedVariable name) e.span ∧
            Late (· ∈ ⟨m.scopes.globals.sortedNames, p⟩ :: os) name moment := by
  have known : ∀ o ∈ (⟨m.scopes.globals.sortedNames, p⟩ : Origin) :: os, o.Clean := by
    intro o origin
    rcases List.mem_cons.mp origin with rfl | old
    · exact clean
    · exact past.clean o old
  have ready := History.ready_cons past.ready known
  have origin : (Knowledge.ofOrigins _ known).known ⟨m.scopes.globals.sortedNames, p⟩ :=
    List.mem_cons_self
  have late : ∀ moment ∈ (Trace.program cfg fuel p).moments m, ∀ name span,
      moment.Raises (.undefinedVariable name) span →
        Late (· ∈ ⟨m.scopes.globals.sortedNames, p⟩ :: os) name moment := by
    intro moment member name span raises
    have allowed := (Knowledge.program_safe origin cfg fuel).moments m ready moment member
    obtain ⟨node, e, m', event, fault, -⟩ := raises
    rcases allowed node e m' event with joining | ⟨other, undefined, late⟩
    · rw [fault] at joining
      rcases joining with unchecked | ⟨-, key, duplicate⟩
      · cases unchecked
      · cases duplicate
    · rw [fault] at undefined
      cases undefined
      exact late trivial
  refine ⟨late, fun e m' failed name undefined => ?_⟩
  obtain ⟨moment, member, raises⟩ := ready.raised origin failed
  rw [undefined] at raises
  exact ⟨moment, member, raises, late moment member name e.span raises⟩

namespace Example

def again : Program :=
  ⟨.zero, .mk .zero [.print .zero [lone (.ref .zero [102] [.call .zero []])]] false⟩

theorem again_clean : Clean (Check.program unfinished.scopes.globals.sortedNames again) := by
  have names : unfinished.scopes.globals.map (·.1) = [[102]] := by decide +kernel
  have sorted : unfinished.scopes.globals.sortedNames = [[102]] := by
    rw [Bindings.sortedNames, names]
    exact List.mergeSort_singleton _
  rw [sorted]
  decide

/-- The name for which a run failed because it was not bound. -/
def unboundName : Eval.Outcome → Option Text
  | .failed ⟨.undefinedVariable name, _, _⟩ => some name
  | _ => none

theorem exists_of_unboundName {r : Eval.Outcome × Machine} {name : Text}
    (unbound : unboundName r.1 = some name) :
    ∃ e m', r = (.failed e, m') ∧ e.fault = .undefinedVariable name := by
  obtain ⟨o, m'⟩ := r
  unfold unboundName at unbound
  split at unbound
  next same =>
    cases unbound
    cases same
    exact ⟨_, _, rfl, rfl⟩
  next => cases unbound

theorem again_fails : unboundName (Eval.program ⟨.right, 8⟩ 60 again unfinished).1 = some [120] := by
  decide +kernel

end Example

open Example in
/-- A stored function is called again whose program failed before it declared the name. -/
theorem unbound_names_are_late_again :
    History ⟨.right, 8⟩ [start] unfinished ∧
      Clean (Check.program unfinished.scopes.globals.sortedNames again) ∧
      ∃ moment ∈ (Trace.program ⟨.right, 8⟩ 60 again).moments unfinished,
        Late (· ∈ [⟨unfinished.scopes.globals.sortedNames, again⟩, start]) [120] moment := by
  refine ⟨unfinished_past, again_clean, ?_⟩
  obtain ⟨e, m', failed, undefined⟩ := exists_of_unboundName again_fails
  obtain ⟨moment, member, -, late⟩ :=
    (unbound_names_are_late unfinished_past again_clean 60).2 e m' failed [120] undefined
  exact ⟨moment, member, late⟩

end CellScript
