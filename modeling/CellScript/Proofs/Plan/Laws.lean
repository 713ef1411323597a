import CellScript.Proofs.Inward
import CellScript.Proofs.Plan.Performance
import CellScript.Proofs.Reachable
import CellScript.Proofs.Trace

/-! What every act keeps, every evaluation keeps. A law relates a machine to all that was done
before it; a chronicle is what a machine has done since its first state. -/
namespace CellScript

open Run

/-- Showing output changes nothing else, whether it succeeds or not. -/
theorem Run.reached_of_shown {span : Span} {m : Machine} {r : EStateM.Result Stop Machine Unit}
    (shown : showOutput span m = r) : reached r = { m with output := m.output.beforeRead } := by
  subst shown
  unfold showOutput
  dsimp only
  split <;> rfl

theorem Run.Inward.understand (span : Span) (kind : ReadKind) (w : Text) :
    Inward (understand span kind w) := by
  cases kind with
  | int =>
    dsimp only [Run.understand]
    cases Integer.read w <;> first | exact newCell _ | exact fail _ _
  | real =>
    dsimp only [Run.understand]
    cases Real.read? w <;> first | exact newCell _ | exact fail _ _
  | string => exact newCell _

namespace Act

variable {α : Type}

/-- Whether the act binds no name and prints nothing. -/
def isInward : {α : Type} → Act α → Bool
  | _, .bind .. | _, .declareFunction .. | _, .print .. => false
  | _, _ => true

theorem inward (a : Act α) (stays : a.isInward = true) : a.run.Inward := by
  cases a with
  | bind | declareFunction | print => cases stays
  | contents c => exact .contents c
  | lookup span name => exact .lookup span name
  | scalar v plain => exact .newCell v
  | array cells => exact .bind (.newArray cells) fun v => .newCell v
  | tuple span fields => exact .bind (.newTuple span fields) fun v => .newCell v
  | function span params code => exact .closure span params code
  | operand span op test given v => exact .bind (.locate span _) fun v => .newCell v
  | reduce assoc span first op second rest => exact .bind (.onHeap span _) fun v => .newCell v
  | itemAt span position v => exact .itemAt span position v
  | itemNamed span name v => exact .itemNamed span name v
  | itemUnder span keySpan key v => exact .itemUnder span keySpan key v
  | assign span target op source => exact .bind (.contents source) fun v => .assignTo span target op v

/-- An act stays with names and heap, or it binds a name or prints. -/
theorem inward_cases {motive : (α : Type) → Act α → Prop}
    (inward : ∀ {α : Type} (a : Act α), a.run.Inward → motive α a)
    (bind : ∀ name c, motive Unit (.bind name c))
    (declare : ∀ name span params code, motive Unit (.declareFunction name span params code))
    (print : ∀ span v, motive Unit (.print span v)) {α : Type} (a : Act α) : motive α a := by
  cases stays : a.isInward with
  | true => exact inward a (a.inward stays)
  | false =>
    cases a with
    | bind name c => exact bind name c
    | declareFunction name span params code => exact declare name span params code
    | print span v => exact print span v
    | _ => cases stays

end Act

/-- A relation between what was done and the machine reached, which each step of a plan keeps. -/
structure Plan.Law (I : List Deed → Machine → Prop) : Prop where
  act {α : Type} {past : List Deed} {m : Machine} (a : Act α) :
    I past m → I (past ++ [.act a m]) (reached (a.run m))
  unread {past : List Deed} {m m' : Machine} {span : Span} {stop : Stop} :
    I past m → showOutput span m = .error stop m' → I past m'
  read {past : List Deed} {m m' : Machine} {span : Span} (kind : ReadKind) :
    I past m → showOutput span m = .ok () m' →
      I (past ++ [.asked span kind m']) (reached (takeValue span kind m'))
  /-- The function is one that a cell held at this point or before. -/
  enter {past earlier : List Deed} {m m' : Machine} {c : CellRef} {f : Closure}
      {arguments : List CellRef} :
    I earlier m' → earlier <+: past → m'.heap.get c = .func f → I past m →
      arguments.length = f.arity →
      I (past ++ [.entered f (m.enter f arguments)]) (m.enter f arguments)
  opened {past : List Deed} {m : Machine} (owner : Owner) :
    I past m → I past { m with scopes := m.scopes.openWith (some owner) [] }
  closed {past : List Deed} {m : Machine} {owner : Owner} {scopes : Scopes} :
    I past m → m.scopes.close (some owner) = .ok scopes → I past { m with scopes := scopes }
  counted {past : List Deed} {m : Machine} (calls : Nat) :
    I past m → I past { m with calls := calls }
  /-- The result of a call that has none. -/
  emptied {past : List Deed} {m : Machine} :
    I past m → I past (reached (newCell .empty m))

/-- A deed among others and one more is the last one or among the others. -/
theorem Deed.split_append {past earlier later : List Deed} {d e : Deed}
    (split : past ++ [d] = earlier ++ e :: later) :
    earlier = past ∧ d = e ∨ ∃ rest, past = earlier ++ e :: rest := by
  rcases List.eq_nil_or_concat later with rfl | ⟨rest, last, rfl⟩
  · obtain ⟨same, last⟩ := List.append_inj' split rfl
    exact .inl ⟨same.symm, (List.cons.inj last).1⟩
  · rw [List.concat_eq_append, ← List.cons_append, ← List.append_assoc] at split
    exact .inr ⟨rest, (List.append_inj' split rfl).1⟩

namespace Plan

variable {α β : Type}

/-- A call with the right number of arguments, while fewer calls are open than may be. -/
theorem invoke_enter {limit : Nat} {site : Span} {f : Closure} {arguments : List CellRef}
    (x : Run (Option CellRef)) {m : Machine} (fits : arguments.length = f.arity)
    (few : m.calls < limit) :
    invoke limit site f arguments x m = Eval.leave site
      (Run.inFrame ⟨.function, f.span, []⟩ (f.captured.override (f.params.zip arguments)) x
        { m with calls := m.calls + 1 }) := by
  unfold invoke
  rw [if_neg (not_not_intro fits)]
  change (if limit ≤ m.calls then Run.fail site (.tooManyCalls limit) else _) m = _
  rw [if_neg (Nat.not_le_of_lt few)]
  exact Eval.asCall_apply _ _ _

/-- Any other call fails before the code starts, as it does while as many calls are open. -/
theorem invoke_refuse {limit : Nat} {site : Span} {f : Closure} {arguments : List CellRef}
    (x : Run (Option CellRef)) {m : Machine}
    (refused : ¬(arguments.length = f.arity ∧ m.calls < limit)) :
    ∃ fault, ∀ m', m'.calls = m.calls →
      invoke limit site f arguments x m' = .error (.fault ⟨fault, site, []⟩) m' := by
  unfold invoke
  by_cases fits : arguments.length = f.arity
  · have many : limit ≤ m.calls := Nat.le_of_not_lt fun few => refused ⟨fits, few⟩
    rw [if_neg (not_not_intro fits)]
    refine ⟨.tooManyCalls limit, fun m' same => ?_⟩
    change (if limit ≤ m'.calls then Run.fail site (.tooManyCalls limit) else _) m' = _
    rw [same, if_pos many]
    rfl
  · rw [if_pos fits]
    exact ⟨_, fun _ _ => rfl⟩

theorem run_call (limit : Nat) (site : Span) (c : CellRef) (arguments : Plan (List CellRef))
    (code : Closure → Plan (Option CellRef)) (m : Machine) :
    (call limit site c arguments code).run m =
      match m.heap.get c with
      | .func f =>
        EStateM.bind arguments.run (fun cells => invoke limit site f cells (code f).run) m
      | v => Run.fail site (.callOf v.type) m := by
  simp only [run]
  change EStateM.bind (contents c) _ m = _
  dsimp only [EStateM.bind, contents]
  cases m.heap.get c <;> rfl

namespace Law

variable {I : List Deed → Machine → Prop} {past : List Deed} {m : Machine}

theorem leave (law : Law I) (site : Span) {r : EStateM.Result Stop Machine (Option CellRef)}
    (holds : I past (reached r)) : I past (reached (Eval.leave site r)) := by
  have counted := law.counted ((reached r).calls - 1) holds
  match r with
  | .ok (some c) m | .error (.ret c) m | .error (.fault e) m | .error (.brk span) m
  | .error (.cont span) m | .error .exhausted m => exact counted
  | .ok none m => exact law.emptied counted

theorem inFrame (law : Law I) (owner : Owner) (bindings : Bindings) (x : Run α)
    (holds : I past (reached (x { m with scopes := m.scopes.openWith (some owner) bindings }))) :
    I past (reached (Run.inFrame owner bindings x m)) := by
  unfold Run.inFrame
  generalize x { m with scopes := m.scopes.openWith (some owner) bindings } = r at holds
  cases r with
  | ok a m' | error stop m' =>
    dsimp only
    cases closed : m'.scopes.close (some owner) with
    | ok scopes => exact law.closed holds closed
    | error fault => exact holds

theorem idle {deeds : List Deed} (holds : I past m) (nothing : deeds = []) :
    I (past ++ deeds) m := by
  rw [nothing, List.append_nil]
  exact holds

/-- What each step keeps, the whole plan keeps. -/
theorem run (law : Law I) (x : Plan α) (start : I past m) :
    I (past ++ x.deeds m) (reached (x.run m)) := by
  induction x generalizing past m with
  | pure a => exact idle start rfl
  | stop s => exact idle start rfl
  | act a => exact law.act a start
  | bind x f first rest =>
    have after := first start
    change I (past ++ (x.deeds m ++ following (x.run m) fun a m => (f a).deeds m))
      (reached (EStateM.bind x.run (fun a => (f a).run) m))
    unfold EStateM.bind
    cases ended : x.run m with
    | ok a m' =>
      rw [ended] at after
      rw [← List.append_assoc]
      exact rest a after
    | error stop m' =>
      rw [ended] at after
      rw [← List.append_assoc]
      exact idle after rfl
  | read span kind =>
    change I (past ++ following (showOutput span m) fun _ m => [.asked span kind m])
      (reached (EStateM.bind (showOutput span) (fun _ => takeValue span kind) m))
    unfold EStateM.bind
    cases shown : showOutput span m with
    | ok _ m' => exact law.read kind start shown
    | error stop m' => exact idle (law.unread start shown) rfl
  | frame owner x inside =>
    exact law.inFrame owner [] x.run (inside (law.opened owner start))
  | round body next first rest =>
    have after := first start
    change I (past ++ (body.deeds m ++ _)) (reached (Run.round body.run next.run m))
    unfold Run.round
    rw [← List.append_assoc]
    generalize body.run m = r at after ⊢
    match r with
    | .ok _ m' | .error (.cont _) m' => exact rest after
    | .error (.brk _) m' | .error (.ret _) m' | .error (.fault _) m' | .error .exhausted m' =>
      exact idle after rfl
  | call limit site c arguments code first rest =>
    unfold deeds
    rw [run_call]
    cases fetched : m.heap.get c with
    | func f =>
      have after := first start
      dsimp only
      rw [← List.append_assoc]
      unfold EStateM.bind
      cases ended : arguments.run m with
      | error stop m' =>
        rw [ended] at after
        exact idle after rfl
      | ok cells m' =>
        rw [ended] at after
        dsimp only [following]
        split
        next fits =>
          have entered := law.enter start (List.prefix_append _ _) fetched after fits.1
          rw [invoke_enter _ fits.1 fits.2, List.append_cons]
          apply law.leave
          apply law.inFrame
          exact rest f entered
        next refused =>
          obtain ⟨fault, refuses⟩ := invoke_refuse (code f).run refused
          rw [refuses m' rfl]
          exact idle after rfl
    | _ => exact idle start rfl

end Law

end Plan

/-- What a machine has done since its first state. Runs that a bound has cut off count too. -/
inductive Chronicle (cfg : Settings) : List Deed → Machine → Prop where
  | initial : Chronicle cfg [] .initial
  | connect {past : List Deed} {m : Machine} (before : Chronicle cfg past m) (input : WordReader)
      (output : Output) : Chronicle cfg past { m with input := input, output := output }
  | program {past : List Deed} {m : Machine} (before : Chronicle cfg past m) (fuel : Nat)
      (p : Program) :
    Chronicle cfg (past ++ (Plan.program cfg fuel p).deeds m) (Eval.program cfg fuel p m).2
  | expression {past : List Deed} {m : Machine} (before : Chronicle cfg past m) (fuel : Nat)
      (e : Expr) :
    Chronicle cfg (past ++ (Plan.expr cfg fuel e).deeds m) (Eval.expression cfg fuel e m).2

namespace Chronicle

variable {cfg : Settings} {I : List Deed → Machine → Prop} {past : List Deed} {m : Machine}

/-- A law of the steps holds of every chronicle if it holds at first and does not depend on the
streams and the frames between two runs. -/
theorem keeps (law : Plan.Law I) (initial : I [] .initial)
    (connect : ∀ {past m} input output,
      I past m → I past { m with input := input, output := output })
    (reset : ∀ {past m}, I past m → I past { m with scopes := m.scopes.reset })
    (chronicle : Chronicle cfg past m) : I past m := by
  induction chronicle with
  | initial => exact initial
  | connect before input output ih => exact connect input output ih
  | @program past m before fuel p ih =>
    have after := law.run (Plan.program cfg fuel p) ih
    rw [Plan.run_program] at after
    rw [Eval.program_eq_conclude]
    generalize p.body.statements.forM (Eval.statement cfg fuel) m = r at after ⊢
    match r with
    | .ok _ m' | .error (.ret _) m' => exact connect m'.input _ after
    | .error (.fault _) m' | .error (.brk _) m' | .error (.cont _) m' | .error .exhausted m' =>
      exact connect m'.input _ (law.counted 0 (reset after))
  | @expression past m before fuel e ih =>
    have after := law.run (Plan.expr cfg fuel e) ih
    rw [(performed cfg fuel).expr] at after
    rwa [Eval.expression_reached]

end Chronicle

/-- A state that can come about has a chronicle. -/
theorem Reachable.chronicle {cfg : Settings} {m : Machine} (reached : Reachable cfg m) :
    ∃ past, Chronicle cfg past m := by
  induction reached with
  | initial => exact ⟨[], .initial⟩
  | connect _ input output ih =>
    obtain ⟨past, before⟩ := ih
    exact ⟨past, before.connect input output⟩
  | @program _ _ p _ _ ends ih =>
    obtain ⟨past, before⟩ := ih
    obtain ⟨_, fuel, ran⟩ := ends
    exact ⟨_, congrArg Prod.snd ran ▸ before.program fuel p⟩
  | @expression _ _ e fuel _ _ ran _ ih =>
    obtain ⟨past, before⟩ := ih
    exact ⟨_, congrArg Prod.snd ran ▸ before.expression fuel e⟩

end CellScript
