import CellScript.Proofs.Output
import CellScript.Proofs.Plan.Laws

/-! The same evaluation with two outputs. What evaluation does depends on its output only where a text
is refused, so two runs that differ in nothing but their outputs go the same way as long as both
outputs take what they are given. -/
namespace CellScript

open Run

namespace Run

variable {α : Type}

/-- The same end with another output. -/
def withOutput (o : Output) : EStateM.Result Stop Machine α → EStateM.Result Stop Machine α
  | .ok a m => .ok a { m with output := o }
  | .error stop m => .error stop { m with output := o }

/-- A step that neither depends on the output nor changes it. -/
def Blind (x : Run α) : Prop := ∀ m o, x { m with output := o } = withOutput o (x m)

namespace Blind

theorem output {x : Run α} (blind : Blind x) (m : Machine) : (reached (x m)).output = m.output := by
  have same : x m = withOutput m.output (x m) := blind m m.output
  rw [same]
  cases x m <;> rfl

end Blind

theorem Inward.blind {x : Run α} (inward : Inward x) : Blind x := by
  intro m o
  obtain ⟨r, h, ends⟩ := inward m.scopes m.heap
  have here : x m = settle m h r := ends m.calls m.output m.input
  have there : x { m with output := o } = settle { m with output := o } h r := ends m.calls o m.input
  rw [here, there]
  cases r <;> rfl

end Run

namespace Act

variable {α : Type}

/-- Whether the act prints something. -/
def isPrint : {α : Type} → Act α → Bool
  | _, .print .. => true
  | _, _ => false

theorem blind (a : Act α) (quiet : a.isPrint = false) : Run.Blind a.run := by
  induction a using Act.inward_cases with
  | inward a inward => exact inward.blind
  | bind name c => exact fun _ _ => rfl
  | declare name span params code =>
    intro m o
    rw [run_declareFunction, run_declareFunction]
    rfl
  | print span v => cases quiet

theorem printed_of_quiet (a : Act α) (quiet : a.isPrint = false) (m : Machine) :
    a.printed m = [] := by
  cases a with
  | print span v => cases quiet
  | _ => rfl

/-- What an act writes is what it prints. -/
theorem output_run (a : Act α) (m : Machine) :
    (reached (a.run m)).output = m.output.write (a.printed m) := by
  cases quiet : a.isPrint with
  | false =>
    rw [a.printed_of_quiet quiet, Output.write_nil]
    exact (a.blind quiet).output m
  | true =>
    cases a with
    | print span v =>
      change (reached (if (m.output.write (m.heap.render v)).failed then _ else _)).output = _
      split <;> rfl
    | _ => cases quiet

end Act

/-- The destination at the start of a line, if a user ended one. -/
def Output.mark (ended : Bool) (o : Output) : Output :=
  { o with sink := { o.sink with atLineStart := o.sink.atLineStart || ended } }

theorem Output.Free.mark {o : Output} (free : o.Free) (ended : Bool) : (o.mark ended).Free :=
  ⟨free.limit, free.failed, free.linked⟩

/-- Taking a word only marks the output. -/
theorem Run.takeWord_eq (span : Span) (what : Text) (m : Machine) :
    ∃ ended r, ∀ o, takeWord span what { m with output := o } = withOutput (o.mark ended) r := by
  refine ⟨decide (m.input.source.entered < m.input.read.2.source.entered), takeWord span what m, ?_⟩
  intro o
  unfold takeWord
  dsimp only
  split
  · rfl
  · split <;> rfl

/-- Related outputs. Text is refused on the right side only, and then the run on that side ends; `t` is
all that was printed on the left side. -/
structure Plan.Parallel (R : Text → Output → Output → Prop) (Broken : Text → Output → Prop) : Prop where
  usable {t : Text} {o p : Output} : R t o p → o.failed = false ∧ p.failed = false
  write {t : Text} {o p : Output} (u : Text) : R t o p →
    R (t ++ u) (o.write u) (p.write u) ∨
      (o.write u).failed = false ∧ (p.write u).failed = true ∧ Broken (t ++ u) (p.write u)
  beforeRead {t : Text} {o p : Output} : R t o p →
    R t o.beforeRead p.beforeRead ∨
      o.beforeRead.failed = false ∧ p.beforeRead.failed = true ∧ Broken t p.beforeRead
  /-- A line that a user enters may end the line on the screen. All output was shown before. -/
  line {t : Text} {o p : Output} (ended : Bool) : R t o p → R t o.beforeRead p.beforeRead →
    R t (o.beforeRead.mark ended) (p.beforeRead.mark ended)
  more {t : Text} {p : Output} (u : Text) : Broken t p → Broken (t ++ u) p

namespace Plan

variable {α β : Type} {R : Text → Output → Output → Prop} {Broken : Text → Output → Prop}

/-- The end of the right run beside that of the left one: the same but for the output, or a fault
because text was refused. -/
inductive Beside (R : Text → Output → Output → Prop) (Broken : Text → Output → Prop) (t : Text) :
    EStateM.Result Stop Machine α → EStateM.Result Stop Machine α → Prop where
  | same {r : EStateM.Result Stop Machine α} {p : Output} (related : R t (reached r).output p) :
    Beside R Broken t r (withOutput p r)
  | broken {r : EStateM.Result Stop Machine α} {e : RuntimeError} {m : Machine}
      (broken : Broken t m.output) : Beside R Broken t r (.error (.fault e) m)

theorem printed_bind (x : Plan α) (f : α → Plan β) (m : Machine) :
    (bind x f).printed m = x.printed m ++
      match x.run m with
      | .ok a m' => (f a).printed m'
      | .error _ _ => [] := by
  unfold printed
  rw [deeds, List.flatMap_append]
  cases x.run m <;> rfl

theorem printed_round (body next : Plan Unit) (m : Machine) :
    (round body next).printed m = body.printed m ++
      match body.run m with
      | .ok _ m' | .error (.cont _) m' => next.printed m'
      | .error _ _ => [] := by
  unfold printed
  rw [deeds, List.flatMap_append]
  generalize body.run m = r
  match r with
  | .ok _ _ | .error (.cont _) _ | .error (.brk _) _ | .error (.ret _) _ | .error (.fault _) _
  | .error .exhausted _ => rfl

theorem printed_call {limit : Nat} {site : Span} {c : CellRef} {arguments : Plan (List CellRef)}
    {code : Closure → Plan (Option CellRef)} {m : Machine} {f : Closure}
    (held : m.heap.get c = .func f) :
    (call limit site c arguments code).printed m = arguments.printed m ++
      match arguments.run m with
      | .ok cells m' =>
        if cells.length = f.arity ∧ m'.calls < limit then (code f).printed (m'.enter f cells) else []
      | .error _ _ => [] := by
  unfold printed
  rw [deeds, held]
  dsimp only
  rw [List.flatMap_append]
  congr 1
  cases arguments.run m with
  | error stop m' => rfl
  | ok cells m' =>
    dsimp only [following]
    split <;> rfl

namespace Beside

variable {t : Text} {m : Machine} {p : Output} {r r' : EStateM.Result Stop Machine α}

theorem inFrame (owner : Owner) (bindings : Bindings) {x : Run α}
    (inside : Beside R Broken t (x { m with scopes := m.scopes.openWith (some owner) bindings })
      (x { m with scopes := m.scopes.openWith (some owner) bindings, output := p })) :
    Beside R Broken t (Run.inFrame owner bindings x m)
      (Run.inFrame owner bindings x { m with output := p }) := by
  unfold Run.inFrame
  dsimp only
  generalize x { m with scopes := m.scopes.openWith (some owner) bindings } = r at inside ⊢
  generalize x { m with scopes := m.scopes.openWith (some owner) bindings, output := p } = r'
    at inside ⊢
  cases inside with
  | @same p' related =>
    cases r with
    | ok a m' | error stop m' =>
      dsimp only [withOutput]
      cases m'.scopes.close (some owner) with
      | ok scopes => exact .same (p := p') related
      | error fault => exact .same (p := p') related
  | @broken e m' broken =>
    dsimp only
    cases m'.scopes.close (some owner) with
    | ok scopes => exact .broken broken
    | error fault => exact .broken broken

theorem leave (site : Span) {r r' : EStateM.Result Stop Machine (Option CellRef)}
    (beside : Beside R Broken t r r') :
    Beside R Broken t (Eval.leave site r) (Eval.leave site r') := by
  cases beside with
  | @same p related =>
    have kept : (reached (Eval.leave site r)).output = (reached r).output := by
      match r with
      | .ok (some c) _ | .ok none _ | .error (.ret _) _ | .error (.fault _) _ | .error (.brk _) _
      | .error (.cont _) _ | .error .exhausted _ => rfl
    have commutes : Eval.leave site (withOutput p r) = withOutput p (Eval.leave site r) := by
      match r with
      | .ok (some c) _ | .ok none _ | .error (.ret _) _ | .error (.fault _) _ | .error (.brk _) _
      | .error (.cont _) _ | .error .exhausted _ => rfl
    rw [commutes]
    exact .same (kept ▸ related)
  | broken broken => exact .broken broken

end Beside

namespace Parallel

variable {t : Text} {m : Machine} {p : Output}

theorem act (parallel : Parallel R Broken) (a : Act α) (related : R t m.output p) :
    Beside R Broken (t ++ a.printed m) (a.run m) (a.run { m with output := p }) := by
  cases quiet : a.isPrint with
  | false =>
    have unchanged := (a.blind quiet).output m
    have other : a.run { m with output := p } = withOutput p (a.run m) := a.blind quiet m p
    rw [a.printed_of_quiet quiet, List.append_nil, other]
    exact .same (unchanged ▸ related)
  | true =>
    cases a with
    | print span v =>
      change Beside R Broken (t ++ m.heap.render v) (Run.print span v m)
        (Run.print span v { m with output := p })
      unfold Run.print
      dsimp only
      rcases parallel.write (m.heap.render v) related with related | ⟨usable, refused, broken⟩
      · have usable := parallel.usable related
        rw [if_neg (by simp [usable.1]), if_neg (by simp [usable.2])]
        exact .same (r := .ok () { m with output := m.output.write (m.heap.render v) }) related
      · rw [if_neg (by simp [usable]), if_pos refused]
        exact .broken broken
    | _ => cases quiet

theorem takeValue (span : Span) (kind : ReadKind)
    (related : ∀ ended, R t (m.output.mark ended) (p.mark ended)) :
    Beside R Broken t (Run.takeValue span kind m) (Run.takeValue span kind { m with output := p }) := by
  obtain ⟨ended, r, word⟩ := takeWord_eq span (Vocabulary.spelling kind) m
  have left : takeWord span (Vocabulary.spelling kind) m = withOutput (m.output.mark ended) r :=
    word m.output
  change Beside R Broken t
    (EStateM.bind (takeWord span (Vocabulary.spelling kind)) (understand span kind) m)
    (EStateM.bind (takeWord span (Vocabulary.spelling kind)) (understand span kind)
      { m with output := p })
  unfold EStateM.bind
  rw [left, word p]
  cases r with
  | error stop m' => exact .same (r := .error stop _) (related ended)
  | ok w m' =>
    dsimp only [withOutput]
    have blind : understand span kind w { m' with output := p.mark ended } =
        withOutput (p.mark ended) (understand span kind w { m' with output := m.output.mark ended }) :=
      (Run.Inward.understand span kind w).blind { m' with output := m.output.mark ended } _
    have unchanged := (Run.Inward.understand span kind w).blind.output
      { m' with output := m.output.mark ended }
    rw [blind]
    exact .same (unchanged ▸ related ended)

theorem read (parallel : Parallel R Broken) (span : Span) (kind : ReadKind)
    (related : R t m.output p) :
    Beside R Broken t ((Plan.read span kind).run m)
      ((Plan.read span kind).run { m with output := p }) := by
  change Beside R Broken t (EStateM.bind (showOutput span) (fun _ => Run.takeValue span kind) m)
    (EStateM.bind (showOutput span) (fun _ => Run.takeValue span kind) { m with output := p })
  unfold EStateM.bind showOutput
  dsimp only
  rcases parallel.beforeRead related with shown | ⟨usable, refused, broken⟩
  · have usable := parallel.usable shown
    rw [if_neg (by simp [usable.1]), if_neg (by simp [usable.2])]
    exact takeValue span kind fun ended => parallel.line ended related shown
  · have linked := Output.linked_beforeRead (parallel.usable related).2 refused
    rw [if_neg (by simp [usable]), if_pos (by simp [linked, refused])]
    exact .broken broken

/-- Two runs of a plan from machines with related outputs. -/
theorem run (parallel : Parallel R Broken) (x : Plan α) (related : R t m.output p) :
    Beside R Broken (t ++ x.printed m) (x.run m) (x.run { m with output := p }) := by
  induction x generalizing t m p with
  | pure a =>
    change Beside R Broken (t ++ []) _ _
    rw [List.append_nil]
    exact .same (r := .ok a m) related
  | stop s =>
    change Beside R Broken (t ++ []) _ _
    rw [List.append_nil]
    exact .same (r := .error s m) related
  | act a =>
    have printed : (Plan.act a).printed m = a.printed m := List.append_nil _
    rw [printed]
    exact parallel.act a related
  | bind x f first rest =>
    have beside := first related
    rw [printed_bind, ← List.append_assoc]
    change Beside R Broken _ (EStateM.bind x.run (fun a => (f a).run) m)
      (EStateM.bind x.run (fun a => (f a).run) { m with output := p })
    unfold EStateM.bind
    generalize x.run m = r at beside ⊢
    generalize x.run { m with output := p } = r' at beside ⊢
    cases beside with
    | @same p' related =>
      cases r with
      | ok a m' => exact rest a related
      | error stop m' =>
        rw [List.append_nil]
        exact .same (r := .error stop m') related
    | broken broken => exact .broken (parallel.more _ broken)
  | read span kind =>
    have silent : (Plan.read span kind).printed m = [] := by
      unfold printed deeds following
      cases showOutput span m <;> rfl
    rw [silent, List.append_nil]
    exact parallel.read span kind related
  | frame owner x inside => exact .inFrame owner [] (inside related)
  | round body next first rest =>
    have beside := first related
    rw [printed_round, ← List.append_assoc]
    change Beside R Broken _ (Run.round body.run next.run m)
      (Run.round body.run next.run { m with output := p })
    unfold Run.round
    generalize body.run m = r at beside ⊢
    generalize body.run { m with output := p } = r' at beside ⊢
    cases beside with
    | @same p' related =>
      cases r with
      | ok a m' => exact rest related
      | error stop m' =>
        cases stop with
        | cont span => exact rest related
        | brk span =>
          rw [List.append_nil]
          exact .same (r := .ok () m') related
        | ret c | fault e | exhausted =>
          rw [List.append_nil]
          exact .same (r := .error _ m') related
    | broken broken => exact .broken (parallel.more _ broken)
  | call limit site c arguments code first rest =>
    rw [run_call, run_call]
    dsimp only
    cases held : m.heap.get c with
    | func f =>
      have beside := first related
      rw [printed_call held, ← List.append_assoc]
      dsimp only
      unfold EStateM.bind
      generalize arguments.run m = r at beside ⊢
      generalize arguments.run { m with output := p } = r' at beside ⊢
      cases beside with
      | broken broken => exact .broken (parallel.more _ broken)
      | @same p' related =>
        cases r with
        | error stop m' =>
          rw [List.append_nil]
          exact .same (r := .error stop m') related
        | ok cells m' =>
          dsimp only [withOutput]
          split
          next fits =>
            have left : invoke limit site f cells (code f).run m' = _ :=
              invoke_enter (code f).run fits.1 fits.2
            have right : invoke limit site f cells (code f).run { m' with output := p' } = _ :=
              invoke_enter (code f).run fits.1 fits.2
            have inside := Beside.inFrame ⟨.function, f.span, []⟩
              (f.captured.override (f.params.zip cells)) (m := { m' with calls := m'.calls + 1 })
              (rest f (m := m'.enter f cells) related)
            have entered := inside.leave site
            rw [← left] at entered
            exact right ▸ entered
          next refused =>
            obtain ⟨fault, refuses⟩ := invoke_refuse (code f).run refused
            rw [refuses m' rfl, refuses { m' with output := p' } rfl, List.append_nil]
            exact .same (r := .error _ m') related
    | empty | int | real | bool | string | array | tuple =>
      have silent : (call limit site c arguments code).printed m = [] := by
        unfold printed
        rw [deeds, held]
        rfl
      rw [silent, List.append_nil]
      exact .same (r := .error _ m) related

end Parallel

end Plan

end CellScript
