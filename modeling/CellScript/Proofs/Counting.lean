import CellScript.Proofs.Discipline
import Mathlib.Data.Int.Range

/-! Counting loops. The two bounds decide beforehand which integers a loop visits: all from the lower
to the upper one, the largest 64-bit integer included. Each round begins with a frame that binds the
counter to a fresh cell and nothing else, whatever earlier rounds did to the counter. -/
namespace CellScript

/-! ### The integers between two bounds -/

theorem toInt_succ {v : Int64} (more : v ≠ Int64.maxValue) : (v + 1).toInt = v.toInt + 1 := by
  have apart : v.toInt ≠ Int64.maxValue.toInt := fun same => more (Int64.toInt_inj.1 same)
  have most : Int64.maxValue.toInt = 2 ^ 63 - 1 := by decide
  have least := v.le_toInt
  have bound := v.toInt_lt
  rw [Int64.toInt_add, Int64.toInt_one, Int.bmod_eq_of_le] <;> omega

theorem range_zero (v : Int) : Int.range v (v + (0 : Nat)) = [] := by
  simp [Int.range]

theorem range_succ (v : Int) (count : Nat) :
    Int.range v (v + (count + 1 : Nat)) = v :: Int.range (v + 1) (v + 1 + count) := by
  have whole : (v + (count + 1 : Nat) - v).toNat = count + 1 := by omega
  have rest : (v + 1 + count - (v + 1)).toNat = count := by omega
  rw [Int.range, Int.range, whole, rest, List.range_succ_eq_map, List.map_cons, List.map_map]
  congr 1
  · exact Int.add_zero v
  · refine List.map_congr_left fun k _ => ?_
    change v + ((k + 1 : Nat) : Int) = v + 1 + k
    omega

theorem toInt_ofInt_of_mem {l h : Int64} {v : Int} (member : v ∈ Int.range l.toInt (h.toInt + 1)) :
    (Int64.ofInt v).toInt = v := by
  have within := Int.mem_range_iff.1 member
  have least := l.le_toInt
  have most := h.toInt_lt
  exact Int64.toInt_ofInt_of_le (by omega) (by omega)

/-! ### Visits -/

/-- The state in which the round for an integer begins: on top of the scopes outside of the loop there
is its frame, and this binds the counter to a fresh cell and nothing else. -/
def Machine.startRound (m : Machine) (owner : Owner) (outside : Scopes) (counter : Text) (v : Int) :
    Machine :=
  let (c, heap) := m.heap.newCell (.int (Int64.ofInt v))
  { m with heap := heap, scopes := outside.openWith (some owner) [(counter, c)] }

namespace Run

/-- Visits integers in order. A round that ends, or that goes on with the next integer, is followed by
the next one; a break ends the loop, and every other stop is passed on. Afterwards only the scopes
outside are left. -/
def visit (owner : Owner) (outside : Scopes) (counter : Text) (body : Run Unit) :
    List Int → Run Unit
  | [] => fun m => .ok () { m with scopes := outside }
  | v :: vs => fun m =>
    match body (m.startRound owner outside counter v) with
    | .ok _ m | .error (.cont _) m => visit owner outside counter body vs m
    | .error (.brk _) m => .ok () { m with scopes := outside }
    | .error stop m => .error stop { m with scopes := outside }

/-! ### A counter of 64 bits -/

/-- The rounds of a loop with a 64-bit counter. Before each round the counter is compared with the
upper bound. After the round for the largest integer there is no other one, so that the counter never
wraps around. -/
def upTo (body : Int64 → Run Unit) (high v : Int64) : Run Unit :=
  if v ≤ high then
    round (body v) (if v = Int64.maxValue then pure () else upTo body high (v + 1))
  else pure ()
termination_by (high.toInt - v.toInt + 1).toNat
decreasing_by
  have within : v.toInt ≤ high.toInt := Int64.le_iff_toInt_le.1 ‹_›
  rw [toInt_succ ‹_›]
  omega

/-- The number of rounds, which is known beforehand, is the one that the comparisons lead to. -/
theorem forCount_eq_upTo (body : Int64 → Run Unit) (high v : Int64) :
    forCount body (high.toInt - v.toInt + 1).toNat v = upTo body high v := by
  induction v using upTo.induct high with
  | case1 v within ih =>
    have below : v.toInt ≤ high.toInt := Int64.le_iff_toInt_le.1 within
    obtain ⟨rounds, count⟩ : ∃ rounds, (high.toInt - v.toInt + 1).toNat = rounds + 1 :=
      Nat.exists_eq_succ_of_ne_zero (by omega)
    rw [upTo, if_pos within, count]
    change round (body v) (forCount body rounds (v + 1)) = _
    congr 1
    by_cases last : v = Int64.maxValue
    · have most := high.toInt_lt
      have largest : v.toInt = 2 ^ 63 - 1 := congrArg Int64.toInt last
      have none : rounds = 0 := by omega
      rw [if_pos last, none]
      rfl
    · have next := toInt_succ last
      have left : rounds = (high.toInt - (v + 1).toInt + 1).toNat := by omega
      rw [if_neg last, left]
      exact ih last
  | case2 v above =>
    have beyond : ¬v.toInt ≤ high.toInt := fun within => above (Int64.le_iff_toInt_le.2 within)
    have none : (high.toInt - v.toInt + 1).toNat = 0 := by omega
    rw [upTo, if_neg above, none]
    rfl

/-! ### The frame of a loop -/

/-- The result of a step, with other scopes in its state. -/
def leaving {α : Type} (outside : Scopes) :
    EStateM.Result Stop Machine α → EStateM.Result Stop Machine α
  | .ok a m => .ok a { m with scopes := outside }
  | .error stop m => .error stop { m with scopes := outside }

/-- A frame that at most grows is closed again, however the step in it ends. -/
theorem inFrame_of_grown {α : Type} {owner : Owner} {bindings : Bindings} {x : Run α} {m : Machine}
    (grown : (m.scopes.openWith (some owner) bindings).Grown
      (reached (x { m with scopes := m.scopes.openWith (some owner) bindings })).scopes) :
    inFrame owner bindings x m =
      leaving m.scopes (x { m with scopes := m.scopes.openWith (some owner) bindings }) := by
  unfold inFrame
  generalize x { m with scopes := m.scopes.openWith (some owner) bindings } = r at grown
  have closed := grown.close_top.1
  cases r with
  | ok a m' | error stop m' =>
    dsimp only [reached] at closed ⊢
    rw [closed]
    rfl

section Rounds

variable {owner : Owner} {outside : Scopes} {counter : Text} (body : Run Unit)

/-- A visit does not depend on the scopes it starts with. -/
theorem visit_scopes (vs : List Int) (m : Machine) (scopes : Scopes) :
    visit owner outside counter body vs { m with scopes := scopes } =
      visit owner outside counter body vs m := by
  cases vs <;> rfl

/-- In a frame that binds no other name, binding the counter to a fresh cell is how a round begins. -/
theorem bindCounter {m : Machine} {b : Bindings} (frame : m.scopes = outside.openWith (some owner) b)
    (alone : ∀ c, b.set counter c = [(counter, c)]) (v : Int) :
    (do
      bindName counter (← newCell (.int (Int64.ofInt v)))
      body : Run Unit) m = body (m.startRound owner outside counter v) := by
  change body { m with
    heap := (m.heap.newCell (.int (Int64.ofInt v))).2,
    scopes := m.scopes.bind counter (m.heap.newCell (.int (Int64.ofInt v))).1 } = _
  rw [frame]
  unfold Machine.startRound Scopes.bind Scopes.openWith
  dsimp only
  rw [alone]

/-- A loop in whose frame there is at most the counter visits one integer after the other. -/
theorem forCount_eq_visit (counter : Text) {body : Run Unit}
    (keeps : ∀ m, m.scopes = (reached (body m)).scopes) (count : Nat) (v : Int)
    {m : Machine} {b : Bindings} (frame : m.scopes = outside.openWith (some owner) b)
    (alone : ∀ c, b.set counter c = [(counter, c)]) :
    leaving outside (forCount (fun v => do
        bindName counter (← newCell (.int v))
        body) count (Int64.ofInt v) m) =
      visit owner outside counter body (Int.range v (v + count)) m := by
  induction count generalizing v m b with
  | zero =>
    rw [range_zero]
    rfl
  | succ count ih =>
    have next : Int64.ofInt v + 1 = Int64.ofInt (v + 1) := (Int64.ofInt_add v 1).symm
    have again (c d : CellRef) : Bindings.set counter d [(counter, c)] = [(counter, d)] := by
      simp [Bindings.set]
    have kept := keeps (m.startRound owner outside counter v)
    have first := bindCounter body frame alone v
    rw [range_succ]
    change leaving outside (round _ (forCount _ count (Int64.ofInt v + 1)) m) = _
    unfold visit round
    rw [next, first]
    generalize body (m.startRound owner outside counter v) = r at kept
    cases r with
    | ok _ m' => exact ih (v + 1) kept.symm (again _)
    | error stop m' =>
      cases stop with
      | cont span => exact ih (v + 1) kept.symm (again _)
      | brk _ | ret _ | fault _ | exhausted => rfl

end Rounds

end Run

/-! ### Loops -/

namespace Eval

open Run

theorem block_keeps (cfg : Settings) (n : Nat) (b : Body) (m : Machine) :
    m.scopes = (reached (block cfg n b m)).scopes := by
  have scopes := ((Trace.discipline cfg n).block [] b).scopes m
  rwa [((Trace.recorded cfg n).block [] b).run_eq] at scopes

theorem forLoop_keeps (cfg : Settings) (n : Nat) (span : Span) (counter : Text) (low high : Expr)
    (b : Body) (m : Machine) :
    m.scopes = (reached (statement cfg n (.forLoop span counter low high b) m)).scopes := by
  cases n with
  | zero => rfl
  | succ n =>
    have orderly := (Trace.discipline cfg n).statement_still [] (s := .forLoop span counter low high b)
      fun _ _ _ same => Statement.noConfusion same
    have scopes := orderly.scopes m
    rwa [((Trace.recorded cfg (n + 1)).statement [] _).run_eq] at scopes

/-- The rounds of a loop between two bounds, in the frame of the loop, visit the integers between
them. -/
theorem rounds_eq_visit (cfg : Settings) (n : Nat) (owner : Owner) (counter : Text) (l h : Int64)
    (b : Body) (m : Machine) :
    inFrame owner [] (forCount (fun v => do
        bindName counter (← newCell (.int v))
        block cfg n b) (h.toInt - l.toInt + 1).toNat l) m =
      visit owner m.scopes counter (block cfg n b) (Int.range l.toInt (h.toInt + 1)) m := by
  have keeps := block_keeps cfg n b
  have grown := (Trace.discipline cfg n).rounds [] counter b (h.toInt - l.toInt + 1).toNat l
  have run := ((Trace.recorded cfg n).rounds [] counter b (h.toInt - l.toInt + 1).toNat l).run_eq
  have opened := grown.scopes { m with scopes := m.scopes.openWith (some owner) [] }
  rw [run] at opened
  rw [inFrame_of_grown opened]
  have visited := forCount_eq_visit counter keeps (h.toInt - l.toInt + 1).toNat l.toInt
    (m := { m with scopes := m.scopes.openWith (some owner) [] }) rfl fun _ => rfl
  have whole : Int.range l.toInt (l.toInt + (h.toInt - l.toInt + 1).toNat) =
      Int.range l.toInt (h.toInt + 1) := by
    unfold Int.range
    congr 2
    omega
  rw [whole, visit_scopes, Int64.ofInt_toInt] at visited
  exact visited

/-- A loop evaluates its bounds, the lower one first, and then visits each integer between them in
order. This is what a loop does that compares a 64-bit counter with the upper bound; the counter holds
the very integer that is visited. After the loop the scopes are as they were. -/
theorem loops_visit_each_integer (cfg : Settings) (n : Nat) (span : Span) (counter : Text)
    (low high : Expr) (b : Body) :
    (statement cfg (n + 1) (.forLoop span counter low high b) = do
      let l ← bound cfg n "lower" low
      let h ← bound cfg n "upper" high
      let m ← get
      visit ⟨.forLoop, span, []⟩ m.scopes counter (block cfg n b) (Int.range l.toInt (h.toInt + 1))) ∧
    (statement cfg (n + 1) (.forLoop span counter low high b) = do
      let l ← bound cfg n "lower" low
      let h ← bound cfg n "upper" high
      inFrame ⟨.forLoop, span, []⟩ [] (upTo (fun v => do
        bindName counter (← newCell (.int v))
        block cfg n b) h l)) ∧
    (∀ l h : Int64, ∀ v ∈ Int.range l.toInt (h.toInt + 1), ∀ (m : Machine) (outside : Scopes),
      let start := m.startRound ⟨.forLoop, span, []⟩ outside counter v
      ∃ c k, start.scopes.lookup? counter = some c ∧ m.heap.cells.size ≤ c.index ∧
        start.heap.get c = .int k ∧ k.toInt = v) ∧
    ∀ m, (reached (statement cfg (n + 1) (.forLoop span counter low high b) m)).scopes = m.scopes := by
  refine ⟨?_, ?_, ?_, fun m => (forLoop_keeps cfg (n + 1) span counter low high b m).symm⟩
  · rw [statement]
    congr 1
    funext l
    congr 1
    funext h m
    exact rounds_eq_visit cfg n _ counter l h b m
  · simp only [statement, forCount_eq_upTo]
  · intro l h v member m outside
    refine ⟨⟨m.heap.cells.size⟩, Int64.ofInt v, ?_, Nat.le_refl _, ?_, toInt_ofInt_of_mem member⟩
    · simp [Machine.startRound, Scopes.lookup?, Scopes.openWith, Bindings.get?_cons, Heap.newCell]
    · exact m.heap.get_newCell_self _

end Eval

namespace Example

/-- Prints the two largest integers, though the body assigns to the counter. -/
def lastTwo : Statement :=
  .forLoop .zero [105] (lone (.literal .zero (.integer .zero (Int64.maxValue - 1))))
    (lone (.literal .zero (.integer .zero Int64.maxValue)))
    (.mk .zero [.print .zero [lone (.ref .zero [105] [])],
      .assign .zero (.ref .zero [105] []) (some (.known .set))
        (lone (.literal .zero (.integer .zero 0)))] false)

example : (Eval.program ⟨.right, 8⟩ 20 ⟨.zero, .mk .zero [lastTwo] false⟩ .initial).2.output.sink.text =
    Text.ofInt (2 ^ 63 - 2) ++ Text.ofInt (2 ^ 63 - 1) := by
  decide +kernel

end Example

end CellScript
