import CellScript.Proofs.Discipline
import CellScript.Proofs.Plan.Parallel

/-! What a program prints reaches its destination: everything and in order, unless the destination
refuses something, and always before the program asks for input. -/
namespace CellScript

open Run

namespace Output

variable {o : Output} {s t : Text}

theorem Carries.mark (carries : Carries s t o) (ended : Bool) : Carries s t (o.mark ended) := by
  constructor
  case taken => exact carries.taken
  case shown =>
    intro usable
    have shown := carries.shown usable
    rw [text_shown] at shown ⊢
    exact shown

/-- A buffer that was passed on left nothing behind. -/
theorem Carries.text_flush (carries : Carries s t o) (usable : o.flush.failed = false) :
    o.flush.sink.text = s ++ t := by
  have shown := carries.flush.shown usable
  rw [text_shown, pending_flush usable] at shown
  exact (List.append_nil _).symm.trans shown

end Output

theorem Run.output_takeValue (span : Span) (kind : ReadKind) (m : Machine) :
    ∃ ended, (reached (takeValue span kind m)).output = m.output.mark ended := by
  obtain ⟨ended, r, word⟩ := takeWord_eq span (Vocabulary.spelling kind) m
  refine ⟨ended, ?_⟩
  have taken : takeWord span (Vocabulary.spelling kind) m = withOutput (m.output.mark ended) r :=
    word m.output
  change (reached (EStateM.bind (takeWord span _) (understand span kind) m)).output = _
  unfold EStateM.bind
  rw [taken]
  cases r with
  | error stop m' => rfl
  | ok w m' =>
    exact (Run.Inward.understand span kind w).blind.output { m' with output := m.output.mark ended }

/-! ### Destinations that take everything -/

/-- What is so after the given deeds: of the destination, which had the text `s` at first, nothing is
kept that was printed, and at every question for input it had all that was printed before. -/
structure Deed.Delivered (s : Text) (past : List Deed) (m : Machine) : Prop where
  free : m.output.Free
  carries : m.output.Carries s (past.flatMap Deed.printed)
  asked : ∀ {earlier later : List Deed} {span : Span} {kind : ReadKind} {m₁ : Machine},
    past = earlier ++ .asked span kind m₁ :: later →
      m₁.output.sink.text = s ++ earlier.flatMap Deed.printed

namespace Deed.Delivered

variable {s : Text} {past : List Deed} {d : Deed} {m m' : Machine}

/-- One more deed that does not ask for input. -/
theorem append (delivered : Delivered s past m) (silent : ∀ span kind m₁, d ≠ .asked span kind m₁)
    (free : m'.output.Free) (carries : m'.output.Carries s (past.flatMap Deed.printed ++ d.printed)) :
    Delivered s (past ++ [d]) m' where
  free := free
  carries := by
    rw [List.flatMap_append, List.flatMap_singleton]
    exact carries
  asked := by
    intro earlier later span kind m₁ split
    rcases Deed.split_append split with ⟨-, same⟩ | ⟨rest, before⟩
    · exact absurd same (silent span kind m₁)
    · exact delivered.asked before

/-- Input is asked for after the buffer was passed on. -/
theorem ask (delivered : Delivered s past m) (span : Span) (kind : ReadKind)
    (output : ∃ ended, m'.output = m.output.beforeRead.mark ended) :
    Delivered s (past ++ [.asked span kind { m with output := m.output.beforeRead }]) m' := by
  obtain ⟨ended, output⟩ := output
  rw [delivered.free.beforeRead] at output ⊢
  constructor
  case free =>
    rw [output]
    exact delivered.free.flush.mark ended
  case carries =>
    rw [output, List.flatMap_append, List.flatMap_singleton]
    exact (List.append_nil (past.flatMap Deed.printed)).symm ▸ delivered.carries.flush.mark ended
  case asked =>
    intro earlier later span kind m₁ split
    rcases Deed.split_append split with ⟨rfl, same⟩ | ⟨rest, before⟩
    · cases same
      exact delivered.carries.text_flush delivered.free.flush.failed
    · exact delivered.asked before

end Deed.Delivered

theorem Plan.delivered_law (s : Text) : Plan.Law (Deed.Delivered s) where
  act {_ past m} a delivered := by
    apply delivered.append
    case silent => exact fun _ _ _ => nofun
    case free =>
      rw [a.output_run]
      exact (delivered.free.write _).1
    case carries =>
      rw [a.output_run]
      exact delivered.carries.write _
  unread {past m m' _ _} delivered shown := by
    have same : m' = _ := reached_of_shown shown
    subst same
    refine ⟨?_, delivered.carries.beforeRead, delivered.asked⟩
    rw [delivered.free.beforeRead]
    exact delivered.free.flush
  read {past m m' span} kind delivered shown := by
    have same : m' = _ := reached_of_shown shown
    subst same
    exact delivered.ask span kind (output_takeValue span kind _)
  enter _ _ _ delivered _ := by
    apply delivered.append
    case silent => exact fun _ _ _ => nofun
    case free => exact delivered.free
    case carries =>
      rw [Deed.printed, List.append_nil]
      exact delivered.carries
  opened _ delivered := ⟨delivered.free, delivered.carries, delivered.asked⟩
  closed delivered _ := ⟨delivered.free, delivered.carries, delivered.asked⟩
  counted _ delivered := ⟨delivered.free, delivered.carries, delivered.asked⟩
  emptied delivered := ⟨delivered.free, delivered.carries, delivered.asked⟩

theorem Plan.delivered {α : Type} (x : Plan α) (m : Machine) {sink : Sink} (free : sink.limit = none) :
    Deed.Delivered sink.text (x.deeds { m with output := .toSink sink })
      (reached (x.run { m with output := .toSink sink })) := by
  have start : Deed.Delivered sink.text [] { m with output := .toSink sink } := by
    constructor
    case free => exact Output.free_toSink free
    case carries => exact Output.carries_toSink sink
    case asked =>
      intro earlier later span kind m₁ split
      exact absurd split.symm (List.append_ne_nil_of_right_ne_nil _ (List.cons_ne_nil _ _))
  exact (Plan.delivered_law sink.text).run x start

/-! ### Destinations that may refuse -/

/-- A run that may be refused output, beside one that is not. -/
theorem Plan.refusing (s : Text) :
    Plan.Parallel (fun t o p => o.Free ∧ p.failed = false ∧ p.Carries s t)
      (fun t p => p.failed = true ∧ p.Carries s t) where
  usable related := ⟨related.1.failed, related.2.1⟩
  write {t o p} u related := by
    obtain ⟨free, -, carries⟩ := related
    have free := (free.write u).1
    cases failed : (p.write u).failed with
    | false => exact .inl ⟨free, rfl, carries.write u⟩
    | true => exact .inr ⟨free.failed, rfl, rfl, carries.write u⟩
  beforeRead {t o p} related := by
    obtain ⟨free, -, carries⟩ := related
    rw [free.beforeRead]
    cases failed : p.beforeRead.failed with
    | false => exact .inl ⟨free.flush, rfl, carries.beforeRead⟩
    | true => exact .inr ⟨free.flush.failed, rfl, rfl, carries.beforeRead⟩
  line ended _ flushed := ⟨flushed.1.mark ended, flushed.2.1, flushed.2.2.mark ended⟩
  more u broken := ⟨broken.1, broken.2.more broken.1 u⟩

namespace Eval

theorem output_conclude (r : EStateM.Result Stop Machine Unit) :
    (conclude r).2.output = (reached r).output.close := by
  match r with
  | .ok _ _ | .error (.ret _) _ | .error (.fault _) _ | .error (.brk _) _ | .error (.cont _) _
  | .error .exhausted _ => rfl

theorem exhausted_withOutput (r : EStateM.Result Stop Machine Unit) (o : Output)
    (exhausted : (conclude (withOutput o r)).1 = .exhausted) : (conclude r).1 = .exhausted := by
  have ended (failed : Bool) : (if failed then Outcome.outputRefused else .done) ≠ .exhausted := by
    cases failed <;> exact nofun
  match r with
  | .ok _ _ | .error (.ret _) _ => exact absurd exhausted (ended _)
  | .error (.fault _) _ | .error (.brk _) _ | .error (.cont _) _ => cases exhausted
  | .error .exhausted _ => rfl

/-- A run that comes to its end without its output fails. -/
theorem fails_of_refused {r : EStateM.Result Stop Machine Unit}
    (refused : (reached r).output.flush.failed = true) (ends : (conclude r).1 ≠ .exhausted) :
    (∃ e, (conclude r).1 = .failed e) ∨ (conclude r).1 = .outputRefused := by
  match r with
  | .ok _ m | .error (.ret _) m =>
    have refused : m.output.flush.failed = true := refused
    exact .inr (if_pos refused)
  | .error (.fault e) _ => exact .inl ⟨e, rfl⟩
  | .error (.brk _) _ | .error (.cont _) _ => exact .inl ⟨_, rfl⟩
  | .error .exhausted _ => exact absurd rfl ends

/-- Beside a run that is refused nothing, a run either shows the same or fails. -/
theorem arrives {s t : Text} {left right : EStateM.Result Stop Machine Unit}
    (beside : Plan.Beside (fun t o p => o.Free ∧ p.failed = false ∧ p.Carries s t)
      (fun t p => p.failed = true ∧ p.Carries s t) t left right)
    (ends : (conclude left).1 ≠ .exhausted) :
    (conclude right).1 ≠ .exhausted ∧ ∃ r, (conclude right).2.output.sink.text = s ++ r ∧ r <+: t ∧
      (r ≠ t → (∃ e, (conclude right).1 = .failed e) ∨ (conclude right).1 = .outputRefused) := by
  rw [output_conclude]
  cases beside with
  | @same q related =>
    have ends : (conclude (withOutput q left)).1 ≠ .exhausted :=
      fun exhausted => ends (exhausted_withOutput left q exhausted)
    have output : (reached (withOutput q left)).output = q := by cases left <;> rfl
    obtain ⟨-, -, carries⟩ := related
    obtain ⟨r, text, beginning⟩ := carries.flush.taken
    refine ⟨ends, r, (by rw [output]; exact text), beginning, fun lost => ?_⟩
    cases failed : q.flush.failed with
    | false =>
      have whole := text.symm.trans (carries.text_flush failed)
      exact absurd (List.append_cancel_left whole) lost
    | true => exact fails_of_refused ((congrArg (·.flush.failed) output).trans failed) ends
  | @broken e m broken =>
    obtain ⟨r, text, beginning⟩ := broken.2.flush.taken
    exact ⟨nofun, r, text, beginning, fun _ => .inl ⟨e, rfl⟩⟩

end Eval

/-- Let `R` be what a program prints, from any state, when nothing is refused. A destination that
takes everything gets `R`, however the run ends, and at every question for input it has got what was
printed before. Any other destination gets a beginning of `R`, and if that is not all of it the run
fails. -/
theorem output_arrives (cfg : Settings) (fuel : Nat) (p : Program) (m : Machine) {free : Sink}
    (unlimited : free.limit = none)
    (ends : (Eval.program cfg fuel p { m with output := .toSink free }).1 ≠ .exhausted) :
    let start := { m with output := .toSink free }
    let R := (Plan.program cfg fuel p).printed start
    (Eval.program cfg fuel p start).2.output.sink.text = free.text ++ R ∧
      (∀ earlier later span kind m₁,
        (Plan.program cfg fuel p).deeds start = earlier ++ .asked span kind m₁ :: later →
          m₁.output.sink.text = free.text ++ earlier.flatMap Deed.printed) ∧
      ∀ (sink : Sink) (o : Eval.Outcome) (m' : Machine),
        Eval.program cfg fuel p { m with output := .toSink sink } = (o, m') →
          o ≠ .exhausted ∧ ∃ r, m'.output.sink.text = sink.text ++ r ∧ r <+: R ∧
            (r ≠ R → (∃ e, o = .failed e) ∨ o = .outputRefused) := by
  intro start R
  have delivered := (Plan.program cfg fuel p).delivered m unlimited
  constructor
  · rw [Eval.program_eq_conclude, Eval.output_conclude, ← Plan.run_program]
    exact delivered.carries.text_flush delivered.free.flush.failed
  constructor
  · intro earlier later span kind m₁ split
    exact delivered.asked split
  · intro sink o m' ran
    have related : Output.Free (.toSink free) ∧ (Output.toSink sink).failed = false ∧
        (Output.toSink sink).Carries sink.text [] :=
      ⟨Output.free_toSink unlimited, rfl, Output.carries_toSink sink⟩
    have beside := (Plan.refusing sink.text).run (Plan.program cfg fuel p) (m := start) related
    rw [Eval.program_eq_conclude, ← Plan.run_program] at ran ends
    have arrives := Eval.arrives beside ends
    change Eval.conclude ((Plan.program cfg fuel p).run { m with output := .toSink sink }) = _ at ran
    rw [List.nil_append, ran] at arrives
    exact arrives

namespace Example

/-- Prints a text, reads a word and prints another text. -/
def greeting : Program :=
  ⟨.zero, .mk .zero [
    .print .zero [lone (.literal .zero (.string .zero [104, 105]))],
    .declare .zero [119] (lone (.read .zero (.known .string))),
    .print .zero [lone (.literal .zero (.string .zero [98, 121, 101]))]] false⟩

def waiting : Machine :=
  { Machine.initial with input := .ofSource (.bytes [97, 98]), output := .toSink (.unlimited true) }

def fourBytes : Sink := ⟨#[], some 4, true, true, false⟩

theorem greeting_succeeds : succeeds (Eval.program ⟨.right, 8⟩ 60 greeting waiting).1 = true := by
  decide +kernel

theorem greeting_printed :
    (Plan.program ⟨.right, 8⟩ 60 greeting).printed waiting = [104, 105, 98, 121, 101] := by
  decide +kernel

theorem greeting_fourBytes :
    (Eval.program ⟨.right, 8⟩ 60 greeting
      { waiting with output := .toSink fourBytes }).2.output.sink.text = [104, 105] := by
  decide +kernel

end Example

open Example in
/-- Two texts, of which the destination takes only the first one: it does so before the word is read,
and the run fails in the end. -/
theorem output_arrives_narrow :
    (Sink.unlimited true).limit = none ∧
      (Eval.program ⟨.right, 8⟩ 60 greeting waiting).1 ≠ .exhausted ∧
      (Eval.program ⟨.right, 8⟩ 60 greeting waiting).2.output.sink.text = [104, 105, 98, 121, 101] ∧
      ∃ o m',
        Eval.program ⟨.right, 8⟩ 60 greeting { waiting with output := .toSink fourBytes } = (o, m') ∧
        m'.output.sink.text = [104, 105] ∧ ((∃ e, o = .failed e) ∨ o = .outputRefused) := by
  have ends : (Eval.program ⟨.right, 8⟩ 60 greeting waiting).1 ≠ .exhausted := by
    rw [done_of_succeeds greeting_succeeds]
    exact nofun
  have unlimited : (Sink.unlimited true).limit = none := rfl
  obtain ⟨all, -, others⟩ := output_arrives ⟨.right, 8⟩ 60 greeting waiting unlimited ends
  obtain ⟨-, r, got, -, lost⟩ := others fourBytes _ _ rfl
  have got : r = [104, 105] := got.symm.trans greeting_fourBytes
  refine ⟨unlimited, ends, all.trans greeting_printed, _, _, rfl, greeting_fourBytes, lost fun whole => ?_⟩
  exact absurd (got.symm.trans (whole.trans greeting_printed)) (by decide)

end CellScript
