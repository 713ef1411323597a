import CellScript.Proofs.Discipline
import CellScript.Proofs.Plan.Parallel

/-! A program that is run in two pieces. Between them the buffer is passed on and a new one taken,
and the input is connected once more; neither makes a difference to what comes after. -/
namespace CellScript

open Run

/-- Two outputs whose destinations take everything look the same once their buffers are passed on. -/
structure Output.Alike (o p : Output) : Prop where
  left : o.Free
  right : p.Free
  shown : o.shown = p.shown

namespace Output.Alike

variable {o p : Output}

theorem refl (free : o.Free) : Alike o o := ⟨free, free, rfl⟩

/-- A new buffer after the old one was passed on. -/
theorem renew (free : o.Free) : Alike o (.toSink o.flush.sink) := by
  constructor
  case left => exact free
  case right => exact free_toSink free.flush.limit
  case shown => rw [free.flush_eq, shown_toSink, toSink]

theorem flush (alike : Alike o p) : o.flush = p.flush := by
  rw [alike.left.flush_eq, alike.right.flush_eq, alike.shown]

theorem close (alike : Alike o p) : o.close = p.close := by
  rw [Output.close, Output.close, alike.flush]

theorem beforeRead (alike : Alike o p) : o.beforeRead = p.beforeRead := by
  rw [alike.left.beforeRead, alike.right.beforeRead, alike.flush]

theorem free_beforeRead (alike : Alike o p) : o.beforeRead.Free := by
  rw [alike.left.beforeRead]
  exact alike.left.flush

theorem write (alike : Alike o p) (t : Text) : Alike (o.write t) (p.write t) := by
  obtain ⟨left, shownLeft⟩ := alike.left.write t
  obtain ⟨right, shownRight⟩ := alike.right.write t
  constructor
  case left => exact left
  case right => exact right
  case shown => rw [shownLeft, shownRight, alike.shown]

end Output.Alike

/-- Alike outputs stay alike, and neither is ever refused anything. -/
theorem Plan.parallel_alike : Plan.Parallel (fun _ => Output.Alike) (fun _ _ => False) where
  usable alike := ⟨alike.left.failed, alike.right.failed⟩
  write t alike := .inl (alike.write t)
  beforeRead alike := .inl (alike.beforeRead ▸ .refl alike.free_beforeRead)
  line ended alike _ := alike.beforeRead ▸ .refl (alike.free_beforeRead.mark ended)
  more _ := id

theorem Plan.run_alike {α : Type} (x : Plan α) {m : Machine} {o : Output}
    (alike : m.output.Alike o) :
    ∃ p, x.run { m with output := o } = withOutput p (x.run m) ∧
      (reached (x.run m)).output.Alike p := by
  have beside := Plan.parallel_alike.run (t := []) x alike
  generalize x.run { m with output := o } = right at beside ⊢
  cases beside with
  | @same p alike => exact ⟨p, rfl, alike⟩
  | broken impossible => cases impossible

namespace Eval

variable {cfg : Settings} {fuel : Nat}

theorem conclude_withOutput {r : EStateM.Result Stop Machine Unit} {o : Output}
    (same : (reached r).output.close = o.close) : conclude (withOutput o r) = conclude r := by
  match r with
  | .ok _ m | .error (.ret _) m | .error (.fault _) m | .error (.brk _) m | .error (.cont _) m
  | .error .exhausted m =>
    have same : m.output.close = o.close := same
    simp only [withOutput, conclude, finish, outcome, same]

/-- A program cannot tell alike outputs apart, and leaves the same behind. -/
theorem program_alike (p : Program) {m : Machine} {o : Output} (alike : m.output.Alike o) :
    program cfg fuel p { m with output := o } = program cfg fuel p m := by
  obtain ⟨q, ran, after⟩ := (Plan.program cfg fuel p).run_alike alike
  rw [program_eq_conclude, program_eq_conclude, ← Plan.run_program, ran]
  exact conclude_withOutput after.close

/-- Whether a return ends the program. -/
def Returns (cfg : Settings) (fuel : Nat) (p : Program) (m : Machine) : Prop :=
  ∃ c m', p.body.statements.forM (statement cfg fuel) m = .error (.ret c) m'

/-- A program that succeeds and does not return comes to the end of its statements. -/
theorem completes {p : Program} {m : Machine} (done : (program cfg fuel p m).1 = .done)
    (goes : ¬Returns cfg fuel p m) :
    ∃ m', p.body.statements.forM (statement cfg fuel) m = .ok () m' := by
  rw [program_eq_conclude] at done
  cases ended : p.body.statements.forM (statement cfg fuel) m with
  | ok _ m' => exact ⟨m', rfl⟩
  | error stop m' =>
    rw [ended] at done
    cases stop with
    | ret c => exact absurd ⟨c, m', ended⟩ goes
    | fault _ | brk _ | cont _ | exhausted => cases done

/-- The statements of the second piece start where those of the first one came to their end. -/
theorem program_append {whole first second : Program} {m m' : Machine}
    (pieces : whole.body.statements = first.body.statements ++ second.body.statements)
    (ended : first.body.statements.forM (statement cfg fuel) m = .ok () m') :
    program cfg fuel whole m = program cfg fuel second m' := by
  have joined : whole.body.statements.forM (statement cfg fuel) =
      (do first.body.statements.forM (statement cfg fuel)
          second.body.statements.forM (statement cfg fuel)) := by
    rw [pieces]
    exact List.forM_append
  rw [program_eq_conclude, program_eq_conclude, joined]
  change conclude (EStateM.bind _ _ m) = _
  unfold EStateM.bind
  rw [ended]

/-- The second piece may start with a new buffer, once the first one has passed on its own. -/
theorem program_pieces {whole first second : Program} {m m' : Machine} (free : m.output.Free)
    (pieces : whole.body.statements = first.body.statements ++ second.body.statements)
    (ended : first.body.statements.forM (statement cfg fuel) m = .ok () m') :
    program cfg fuel whole m =
      program cfg fuel second { m' with output := .toSink m'.output.flush.sink } := by
  obtain ⟨_, -, after⟩ := (Plan.program cfg fuel first).run_alike (.refl free)
  rw [Plan.run_program, ended] at after
  rw [program_append pieces ended]
  exact (program_alike second (.renew after.left)).symm

end Eval

namespace Session

theorem readsShared_connect (s : Session) : (s.connect .shared).readsShared = true := by
  unfold connect
  dsimp only
  split
  next reads => exact reads
  next => rfl

/-- An input that is read already is not connected anew. -/
theorem connect_of_reads {s : Session} (reads : s.readsShared = true) : s.connect .shared = s := by
  unfold connect
  simp only [if_pos reads]

theorem execute_shared (s : Session) (sink : Sink) (p : Program) :
    s.execute .shared sink p =
      let ran := Eval.program s.config.settings Eval.ample p
        { (s.connect .shared).machine with output := .toSink sink }
      (ran.1, { s.connect .shared with machine := ran.2 }) := by
  unfold execute
  dsimp only
  rw [s.config_connect .shared]

end Session

/-- Running a program in two pieces with one reader and one destination that takes everything is
running it whole: all ends the same, with the same failure if there is one, the same output, and the
same state of the session. The first piece must succeed, and not by a return. -/
theorem pieces_run_like_whole (s : Session) {sink : Sink} (unlimited : sink.limit = none)
    {whole first second : Program}
    (pieces : whole.body.statements = first.body.statements ++ second.body.statements)
    (done : (s.execute .shared sink first).1 = .done)
    (goes : ¬Eval.Returns s.config.settings Eval.ample first
      { (s.connect .shared).machine with output := .toSink sink }) :
    let next := (s.execute .shared sink first).2
    s.execute .shared sink whole = next.execute .shared next.machine.output.sink second := by
  intro next
  rw [s.execute_shared] at done
  obtain ⟨m', ended⟩ := Eval.completes done goes
  have left : next = { s.connect .shared with machine := { m' with output := m'.output.close } } := by
    change (s.execute .shared sink first).2 = _
    rw [s.execute_shared, Eval.program_eq_conclude, ended]
    rfl
  have reads : next.readsShared = true := by
    rw [left]
    exact s.readsShared_connect
  have config : next.config = s.config := by
    rw [left]
    exact s.config_connect .shared
  rw [s.execute_shared, next.execute_shared, Session.connect_of_reads reads, config, left]
  rw [Eval.program_pieces (Output.free_toSink unlimited) pieces ended]
  rfl

namespace Example

def opening : List Statement := [
  .print .zero [lone (.literal .zero (.string .zero [104, 105]))],
  .declare .zero [119] (lone (.read .zero (.known .string)))]

def closing : List Statement := [
  .print .zero [lone (.ref .zero [119] []), lone (.read .zero (.known .string))]]

def running (statements : List Statement) : Program := ⟨.zero, .mk .zero statements false⟩

def talk : Session := .start ⟨[], [], false, [], true, [], 8, []⟩ [97, 32, 98]

def comesToEnd : EStateM.Result Stop Machine Unit → Bool
  | .ok _ _ => true
  | .error _ _ => false

theorem opening_comesToEnd :
    comesToEnd ((running opening).body.statements.forM
      (Eval.statement talk.config.settings Eval.ample)
      { (talk.connect .shared).machine with output := .toSink (.unlimited true) }) = true := by
  decide +kernel

theorem opening_succeeds :
    succeeds (talk.execute .shared (.unlimited true) (running opening)).1 = true := by
  decide +kernel

theorem talk_output :
    (talk.execute .shared (.unlimited true) (running (opening ++ closing))).2.output =
      [104, 105, 97, 98] := by
  decide +kernel

end Example

open Example in
/-- The second word is read by the second piece, though the first one has taken it from the input. -/
theorem pieces_run_like_whole_talk :
    (Sink.unlimited true).limit = none ∧
      (talk.execute .shared (.unlimited true) (running opening)).1 = .done ∧
      ¬Eval.Returns talk.config.settings Eval.ample (running opening)
        { (talk.connect .shared).machine with output := .toSink (.unlimited true) } ∧
      let next := (talk.execute .shared (.unlimited true) (running opening)).2
      (next.execute .shared next.machine.output.sink (running closing)).2.output =
        [104, 105, 97, 98] := by
  have done := done_of_succeeds opening_succeeds
  have goes : ¬Eval.Returns talk.config.settings Eval.ample (running opening)
      { (talk.connect .shared).machine with output := .toSink (.unlimited true) } := by
    rintro ⟨c, m', returned⟩
    have completed := opening_comesToEnd
    rw [returned] at completed
    cases completed
  have pieces : (running (opening ++ closing)).body.statements =
      (running opening).body.statements ++ (running closing).body.statements := rfl
  have unlimited : (Sink.unlimited true).limit = none := rfl
  have same := pieces_run_like_whole talk unlimited pieces done goes
  refine ⟨unlimited, done, goes, ?_⟩
  intro next
  rw [← same]
  exact talk_output

end CellScript
