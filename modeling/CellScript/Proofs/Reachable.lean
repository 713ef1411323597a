import CellScript.Proofs.Fuel
import CellScript.Session

/-! The states of a machine between programs: what the initial state becomes by connecting inputs
and outputs, running programs and evaluating expressions. -/
namespace CellScript

/-- States that come about with given settings. Runs that only a bound has cut off do not count. -/
inductive Reachable (cfg : Settings) : Machine → Prop where
  | initial : Reachable cfg .initial
  | connect {m : Machine} (reached : Reachable cfg m) (input : WordReader) (output : Output) :
    Reachable cfg { m with input := input, output := output }
  | program {m m' : Machine} {p : Program} {o : Eval.Outcome} (reached : Reachable cfg m)
      (ends : Eval.Ends cfg p m o m') : Reachable cfg m'
  | expression {m m' : Machine} {e : Expr} {fuel : Nat} {r : Except Stop Value}
      (reached : Reachable cfg m) (ran : Eval.expression cfg fuel e m = (r, m'))
      (ends : r ≠ .error .exhausted) : Reachable cfg m'

namespace Session

theorem machine_connect (s : Session) (feed : Feed) :
    ∃ input, (s.connect feed).machine = { s.machine with input := input } := by
  cases feed with
  | shared =>
    unfold connect
    dsimp only
    split
    · exact ⟨s.machine.input, rfl⟩
    · exact ⟨_, rfl⟩
  | fresh source => exact ⟨_, rfl⟩

theorem config_connect (s : Session) (feed : Feed) : (s.connect feed).config = s.config := by
  cases feed with
  | shared =>
    unfold connect
    dsimp only
    split <;> rfl
  | fresh source => rfl

end Session

end CellScript
