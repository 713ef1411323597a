import CellScript.Proofs.Optimize.Evaluation
import CellScript.Proofs.Optimize.Resting

/-! The passes settle. Each pass leaves nothing for itself to do, and none makes work for one that ran
before it; so one round is enough, and a second one changes nothing. -/
namespace CellScript.Optimize

variable {assoc : Associativity}

/-! ### Constant folding -/

theorem rests_scalar {l : Literal} {v : Value} (scalar : scalarValue? l = some v) (r : Rules) :
    Rests r (.literal l) := by
  cases l with
  | integer | real | boolean | string | empty =>
    exact .mk rfl fun _ none => absurd none List.not_mem_nil
  | missing | array | tuple | function | lambda => cases scalar

theorem rests_scalar_primary {l : Literal} {v : Value} (scalar : scalarValue? l = some v) (r : Rules)
    (span : Span) : Rests r (.primary (.literal span l)) :=
  .mk rfl (List.forall_mem_singleton.mpr (rests_scalar scalar r))

/-- Folding gives a literal alone, on which nothing is left to do. -/
theorem settle_constantFolding (assoc : Associativity) :
    (Pass.constantFolding.rules assoc).Settle := by
  have sound := Pass.rules_sound assoc .constantFolding
  rintro a b - revised
  unfold Part.revise at revised
  split at revised
  next span xs ops =>
    obtain ⟨e, folded, rfl⟩ := Option.map_eq_some_iff.mp revised
    obtain ⟨l, v, rfl, scalar, -⟩ := sound.expr _ _ folded
    have operand : Rests (Pass.constantFolding.rules assoc)
        (.operand (.mk span none (.literal span l) none)) :=
      .mk rfl (List.forall_mem_singleton.mpr (rests_scalar_primary scalar _ span))
    exact .mk rfl (List.forall_mem_singleton.mpr operand)
  next span inner =>
    obtain ⟨p, unwrapped, rfl⟩ := Option.map_eq_some_iff.mp revised
    obtain ⟨_, _, l, v, -, rfl, scalar, -⟩ := sound.paren _ _ unwrapped
    exact rests_scalar_primary scalar _ _
  next => cases revised
  next => cases revised

/-! ### Passes over bodies -/

/-- Rules that apply to bodies only. -/
def Rules.bodies (f : Body → Option Body) : Rules := { Rules.none with body := f }

section

variable (f : Body → Option Body)

theorem plainLiteral?_operands (span : Span) (xs : List Operand) (ops : List (Word BinaryOp)) :
    plainLiteral? (.mk span (Walk.operands (.bodies f) xs).value ops) =
      (plainLiteral? (.mk span xs ops)).map fun l => (Walk.literal (.bodies f) l).value := by
  match xs with
  | [] => rfl
  | .mk _ op p test :: ys => cases ys <;> cases op <;> cases test <;> cases p <;> cases ops <;> rfl

theorem plainLiteral?_walk (e : Expr) :
    plainLiteral? (Walk.expr (.bodies f) e).value =
      (plainLiteral? e).map fun l => (Walk.literal (.bodies f) l).value := by
  cases e with
  | missing => rfl
  | mk span xs ops => exact plainLiteral?_operands f span xs ops

theorem operandValue?_walk (x : Operand) :
    operandValue? (Walk.operand (.bodies f) x).value = operandValue? x := by
  obtain ⟨span, op, p, test⟩ := x
  cases p with
  | literal span' l =>
    change ((scalarValue? (Walk.literal (.bodies f) l).value).bind _) = _
    rw [scalarValue?_walk]
    rfl
  | read | ref | paren => rfl

theorem constantValue?_walk (span : Span) (xs : List Operand) (ops : List (Word BinaryOp)) :
    constantValue? assoc (.mk span (Walk.operands (.bodies f) xs).value ops) =
      constantValue? assoc (.mk span xs ops) := by
  have values : (operandValue? ∘ fun x => (Walk.operand (.bodies f) x).value) = operandValue? :=
    funext (operandValue?_walk f)
  cases xs with
  | nil => rfl
  | cons x xs =>
    simp only [Walk.operands_value, List.map_cons, constantValue?, operandValue?_walk, List.mapM_map,
      values]

/-- Folding sees through such a walk. -/
theorem foldExpr_walk (span : Span) (xs : List Operand) (ops : List (Word BinaryOp)) :
    foldExpr assoc (.mk span (Walk.operands (.bodies f) xs).value ops) =
      foldExpr assoc (.mk span xs ops) := by
  unfold foldExpr
  rw [constantValue?_walk]
  simp only [plainLiteral?_operands, Option.isSome_map]
  rfl

theorem unwrap_walk {span : Span} {inner : Expr} (stays : unwrap (.paren span inner) = none) :
    unwrap (.paren span (Walk.expr (.bodies f) inner).value) = none := by
  unfold unwrap at stays ⊢
  dsimp only at stays ⊢
  rw [plainLiteral?_walk]
  cases plain : plainLiteral? inner with
  | none => rfl
  | some l =>
    rw [plain] at stays
    cases l <;> first | rfl | cases stays

theorem literalCondition?_walk (e : Expr) :
    literalCondition? (Walk.expr (.bodies f) e).value = literalCondition? e := by
  unfold literalCondition?
  rw [plainLiteral?_walk]
  cases plainLiteral? e with
  | none => rfl
  | some l => cases l <;> rfl

theorem liveParts_walk {s : Statement} (stays : liveParts s = none) :
    liveParts (Walk.statement (.bodies f) s).value = none := by
  cases s with
  | branch span condition yes no =>
    change (literalCondition? (Walk.expr (.bodies f) condition).value).map _ = none
    rw [literalCondition?_walk, Option.map_eq_none_iff]
    exact Option.map_eq_none_iff.mp stays
  | whileLoop span condition b =>
    have same := literalCondition?_walk f condition
    change (if literalCondition? (Walk.expr (.bodies f) condition).value = _ then _ else _) = _
    rw [same]
    exact stays
  | _ => rfl

end

/-- Such rules make something of a body only. -/
theorem revise_bodies {f : Body → Option Body} {a b : Part}
    (revised : a.revise (.bodies f) = some b) : ∃ old new, a = .body old ∧ b = .body new ∧ f old = some new := by
  unfold Part.revise at revised
  split at revised
  next => cases revised
  next => cases revised
  next span ss cleared =>
    obtain ⟨new, ruled, rfl⟩ := Option.map_eq_some_iff.mp revised
    exact ⟨_, new, rfl, rfl, ruled⟩
  next => cases revised

/-- The rule of a pass that only takes statements away, or puts their parts in their place. -/
def Thins (f : Body → Option Body) : Prop :=
  ∀ r old new, f old = some new → (∀ a ∈ (Part.body old).parts, Rests r a) →
    ∀ a ∈ (Part.body new).parts, Rests r a

/-- A pass over bodies wakes nothing that rests after folding. -/
theorem spare_constantFolding {f : Body → Option Body} (thins : Thins f) (assoc : Associativity) :
    (Rules.bodies f).Spare (Pass.constantFolding.rules assoc) := by
  have idle (b : Body) : (Part.body b).revise (Pass.constantFolding.rules assoc) = none := by
    cases b <;> rfl
  constructor
  · intro a stays
    cases a with
    | expr e =>
      cases e with
      | missing => rfl
      | mk span xs ops =>
        rw [Part.beneath, Part.revise, Option.map_eq_none_iff]
        exact (foldExpr_walk f span xs ops).trans (Option.map_eq_none_iff.mp stays)
    | primary p =>
      cases p with
      | paren span inner =>
        rw [Part.beneath, Part.revise, Option.map_eq_none_iff]
        exact unwrap_walk f (Option.map_eq_none_iff.mp stays)
      | read | ref | literal => rfl
    | body b => cases b <;> rfl
    | operand | tail | literal | element | statement => rfl
  · intro a b rests revised
    obtain ⟨old, new, rfl, rfl, ruled⟩ := revise_bodies revised
    exact .mk (idle new) (thins _ old new ruled rests.inside)

/-! ### Dead branches -/

/-- What stays of a statement is the statement, or a body of it. -/
theorem mem_liveParts {s t : Statement} (member : t ∈ (liveParts s).getD [s]) :
    liveParts t = none ∧ (t = s ∨ ∃ b, t = .block b ∧ Part.body b ∈ (Part.statement s).parts) := by
  cases live : liveParts s with
  | none =>
    rw [live] at member
    obtain rfl := List.mem_singleton.mp member
    exact ⟨live, .inl rfl⟩
  | some ts =>
    rw [live, Option.getD_some] at member
    cases s with
    | branch span condition yes no =>
      obtain ⟨holds, -, rfl⟩ := Option.map_eq_some_iff.mp live
      have part : Part.body (if holds then yes else no) ∈
          (Part.statement (.branch span condition yes no)).parts := by
        cases holds <;> simp [Part.parts]
      dsimp only at member
      by_cases empty : (if holds then yes else no).statements.isEmpty = true
      · rw [if_pos empty] at member
        cases member
      · rw [if_neg empty] at member
        obtain rfl := List.mem_singleton.mp member
        exact ⟨rfl, .inr ⟨_, rfl, part⟩⟩
    | whileLoop span condition b =>
      simp only [liveParts] at live
      split at live
      · cases live
        cases member
      · cases live
    | _ => cases live

/-- The pass has nothing to do in a body without such statements. -/
theorem revise_deadBranches {b : Body} :
    (Part.body b).revise (Pass.deadBranches.rules assoc) = none ↔
      ∀ s ∈ b.statements, liveParts s = none := by
  cases b with
  | missing => exact iff_of_true rfl fun _ none => absurd none List.not_mem_nil
  | mk span ss cleared =>
    refine Option.map_eq_none_iff.trans ?_
    simp only [Pass.rules, dropDeadBranches, Body.statements]
    split
    next found =>
      refine iff_of_false (Option.some_ne_none _) fun none => ?_
      obtain ⟨s, member, live⟩ := List.any_eq_true.mp found
      rw [none s member] at live
      cases live
    next nothing =>
      refine iff_of_true rfl fun s member => ?_
      rw [Bool.not_eq_true, List.any_eq_false] at nothing
      exact Option.not_isSome_iff_eq_none.mp (nothing s member)

theorem dropDeadBranches_eq_some {old new : Body} (dropped : dropDeadBranches old = some new) :
    new.statements = old.statements.flatMap fun s => (liveParts s).getD [s] := by
  cases old with
  | missing => cases dropped
  | mk span ss cleared =>
    simp only [dropDeadBranches] at dropped
    split at dropped
    · cases dropped
      rfl
    · cases dropped

theorem parts_body (b : Body) : (Part.body b).parts = b.statements.map .statement := by
  cases b <;> rfl

theorem thins_dropDeadBranches : Thins dropDeadBranches := by
  intro r old new dropped inside a member
  rw [parts_body, dropDeadBranches_eq_some dropped] at member
  obtain ⟨t, stays, rfl⟩ := List.mem_map.mp member
  obtain ⟨s, origin, live⟩ := List.mem_flatMap.mp stays
  rw [parts_body] at inside
  have rests := inside _ (List.mem_map_of_mem origin)
  obtain ⟨-, rfl | ⟨b, rfl, part⟩⟩ := mem_liveParts live
  · exact rests
  · exact .mk rfl (List.forall_mem_singleton.mpr (rests.inside _ part))

theorem settle_deadBranches (assoc : Associativity) : (Pass.deadBranches.rules assoc).Settle := by
  intro a b inside revised
  obtain ⟨old, new, rfl, rfl, dropped⟩ := revise_bodies revised
  refine .mk (revise_deadBranches.mpr ?_) (thins_dropDeadBranches _ _ _ dropped inside)
  intro t member
  rw [dropDeadBranches_eq_some dropped] at member
  obtain ⟨s, -, member⟩ := List.mem_flatMap.mp member
  exact (mem_liveParts member).1

/-! ### Unreachable statements -/

theorem upToLeaving_again (ss : List Statement) : upToLeaving (upToLeaving ss) = upToLeaving ss := by
  induction ss with
  | nil => rfl
  | cons s ss ih =>
    by_cases leaving : leaves s = true
    · simp only [upToLeaving, leaving, if_true]
    · simp only [upToLeaving, leaving, if_false, Bool.false_eq_true, ih]

theorem dropUnreachable_eq_some {old new : Body} (dropped : dropUnreachable old = some new) :
    new.statements = upToLeaving old.statements := by
  cases old with
  | missing => cases dropped
  | mk span ss cleared =>
    simp only [dropUnreachable] at dropped
    split at dropped
    · cases dropped
      rfl
    · cases dropped

/-- The pass has nothing to do in a body where nothing follows a statement that leaves. -/
theorem revise_unreachable {b : Body} :
    (Part.body b).revise (Pass.unreachable.rules assoc) = none ↔
      upToLeaving b.statements = b.statements := by
  cases b with
  | missing => exact iff_of_true rfl rfl
  | mk span ss cleared =>
    have shorter := upToLeaving_sublist ss
    refine Option.map_eq_none_iff.trans ?_
    simp only [Pass.rules, dropUnreachable, Body.statements]
    split
    next less =>
      refine iff_of_false (Option.some_ne_none _) fun same => ?_
      rw [same] at less
      exact Nat.lt_irrefl _ less
    next same => exact iff_of_true rfl (shorter.eq_of_length_le (Nat.le_of_not_lt same))

theorem thins_dropUnreachable : Thins dropUnreachable := by
  intro r old new dropped inside a member
  rw [parts_body, dropUnreachable_eq_some dropped] at member
  rw [parts_body] at inside
  exact inside a (((upToLeaving_sublist _).map _).subset member)

theorem settle_unreachable (assoc : Associativity) : (Pass.unreachable.rules assoc).Settle := by
  intro a b inside revised
  obtain ⟨old, new, rfl, rfl, dropped⟩ := revise_bodies revised
  refine .mk (revise_unreachable.mpr ?_) (thins_dropUnreachable _ _ _ dropped inside)
  rw [dropUnreachable_eq_some dropped, upToLeaving_again]

/-- Taking unreachable statements away makes no branch dead. -/
theorem spare_deadBranches (assoc : Associativity) :
    (Pass.unreachable.rules assoc).Spare (Pass.deadBranches.rules assoc) := by
  constructor
  · intro a stays
    cases a with
    | body b =>
      cases b with
      | missing => rfl
      | mk span ss cleared =>
        have none := revise_deadBranches.mp stays
        refine revise_deadBranches.mpr fun t member => ?_
        rw [Body.statements, Walk.statements_value] at member
        obtain ⟨s, origin, rfl⟩ := List.mem_map.mp member
        exact liveParts_walk dropUnreachable (none s origin)
    | expr e => cases e <;> rfl
    | primary p => cases p <;> rfl
    | operand | tail | literal | element | statement => rfl
  · intro a b rests revised
    obtain ⟨old, new, rfl, rfl, dropped⟩ := revise_bodies revised
    have none := revise_deadBranches.mp rests.here
    refine .mk (revise_deadBranches.mpr ?_) (thins_dropUnreachable _ _ _ dropped rests.inside)
    rw [dropUnreachable_eq_some dropped]
    exact fun s member => none s ((upToLeaving_sublist _).subset member)

/-! ### Rounds -/

theorem settle (assoc : Associativity) (pass : Pass) : (pass.rules assoc).Settle := by
  cases pass with
  | constantFolding => exact settle_constantFolding assoc
  | deadBranches => exact settle_deadBranches assoc
  | unreachable => exact settle_unreachable assoc

/-- The order of the passes: none wakes what one before it left. -/
theorem all_spare (assoc : Associativity) :
    Pass.all.Pairwise fun before after => (after.rules assoc).Spare (before.rules assoc) := by
  have first : (Pass.deadBranches.rules assoc).Spare (Pass.constantFolding.rules assoc) :=
    spare_constantFolding thins_dropDeadBranches assoc
  have second : (Pass.unreachable.rules assoc).Spare (Pass.constantFolding.rules assoc) :=
    spare_constantFolding thins_dropUnreachable assoc
  have third := spare_deadBranches assoc
  simp only [Pass.all, Vocabulary.all, List.pairwise_cons, List.mem_cons, List.not_mem_nil, or_false,
    forall_eq_or_imp, forall_eq]
  exact ⟨⟨first, second⟩, third, fun _ => False.elim, .nil⟩

/-- The passes have nothing to do in the program. -/
def Settled (assoc : Associativity) (passes : List Pass) (p : Program) : Prop :=
  ∀ pass ∈ passes, Rests (pass.rules assoc) (.body p.body)

theorem runPass_settled {pass : Pass} {p : Program}
    (rests : Rests (pass.rules assoc) (.body p.body)) : runPass assoc p pass = ⟨p, false⟩ := by
  obtain ⟨same, unchanged⟩ := rests.walk_eq
  have value : (Walk.body (pass.rules assoc) p.body).value = p.body := Part.body.inj same
  have changed : (Walk.body (pass.rules assoc) p.body).changed = false := unchanged
  change (⟨{ p with body := (Walk.body (pass.rules assoc) p.body).value },
    (Walk.body (pass.rules assoc) p.body).changed || false⟩ : Revised Program) = _
  rw [value, changed]
  rfl

theorem round_settled {passes : List Pass} {p : Program} (settled : Settled assoc passes p) :
    round assoc passes p = ⟨p, false⟩ := by
  induction passes with
  | nil => rfl
  | cons pass passes ih =>
    obtain ⟨first, rest⟩ := List.forall_mem_cons.mp settled
    change (runPass assoc p pass >>= round assoc passes) = _
    rw [runPass_settled first]
    change Revised.mk (round assoc passes p).value (false || (round assoc passes p).changed) = _
    rw [ih rest]
    rfl

/-- A round that says that it changed nothing found nothing to do. -/
theorem settled_of_unchanged {passes : List Pass} {p : Program}
    (unchanged : (round assoc passes p).changed = false) : Settled assoc passes p := by
  induction passes with
  | nil => exact fun _ none => absurd none List.not_mem_nil
  | cons pass passes ih =>
    obtain ⟨first, rest⟩ := Bool.or_eq_false_iff.mp unchanged
    have rests : Rests (pass.rules assoc) (.body p.body) :=
      .of_unchanged (Bool.or_eq_false_iff.mp first).1
    rw [runPass_settled rests] at rest
    exact List.forall_mem_cons.mpr ⟨rests, ih rest⟩

theorem rests_round {passes : List Pass} {r : Rules} {p : Program} (rests : Rests r (.body p.body))
    (spare : ∀ pass ∈ passes, (pass.rules assoc).Spare r) :
    Rests r (.body (round assoc passes p).value.body) := by
  induction passes generalizing p with
  | nil => exact rests
  | cons pass passes ih =>
    obtain ⟨first, others⟩ := List.forall_mem_cons.mp spare
    exact ih (rests.walk first) others

/-- A round of passes in order leaves none of them anything to do. -/
theorem settled_round {passes : List Pass}
    (ordered : passes.Pairwise fun before after => (after.rules assoc).Spare (before.rules assoc))
    (p : Program) : Settled assoc passes (round assoc passes p).value := by
  induction ordered generalizing p with
  | nil => exact fun _ none => absurd none List.not_mem_nil
  | @cons pass passes spare _ ih =>
    have rests : Rests (pass.rules assoc) (.body (runPass assoc p pass).value.body) :=
      .of_walk (settle assoc pass) (.body p.body)
    have kept := rests_round rests spare
    exact List.forall_mem_cons.mpr ⟨kept, ih _⟩

theorem rounds_settled {passes : List Pass} {p : Program} (settled : Settled assoc passes p)
    (bound : Nat) : rounds assoc passes bound p = (0, p) := by
  cases bound with
  | zero => rfl
  | succ bound =>
    rw [rounds, round_settled settled]
    rfl

/-! ### Literal operands at work -/

/-- The operand is a literal without parts, perhaps with an operator or a type test. -/
inductive Scalar : Operand → Prop where
  | mk {span span' : Span} {op : Option (Word UnaryOp)} {l : Literal} {test : Option (Word TypeName)}
    (scalar : l.isScalar = true) : Scalar (.mk span op (.literal span' l) test)

theorem newCell_ok {v : Value} {m m' : Machine} {c : CellRef} (ended : Run.newCell v m = .ok c m') :
    m'.heap.get c = v := by
  have same := m.newCell_grow [] v
  rw [m.grow_nil, ended] at same
  cases same
  exact m.get_grow [] v

theorem literal_ok {cfg : Settings} {n : Nat} {l : Literal} {m m' : Machine} {c : CellRef}
    (scalar : l.isScalar = true) (ended : Eval.literal cfg n l m = .ok c m') :
    scalarValue? l = some (m'.heap.get c) := by
  cases n with
  | zero => cases ended
  | succ n =>
    cases l with
    | integer | real | boolean | string | empty =>
      simp only [Eval.literal] at ended
      rw [newCell_ok ended, scalarValue?]
    | missing | array | tuple | function | lambda => cases scalar

theorem locate_ok {α : Type} {span : Span} {r : Except Fault α} {m m' : Machine} {a : α}
    (ended : Run.locate span r m = .ok a m') : r = .ok a := by
  cases r with
  | ok b =>
    cases ended
    rfl
  | error fault => cases ended

theorem operand_ok {cfg : Settings} {n : Nat} {x : Operand} {m m' : Machine} {c : CellRef}
    (scalar : Scalar x) (ended : Eval.operand cfg n x m = .ok c m') :
    operandValue? x = some (m'.heap.get c) := by
  obtain @⟨span, span', op, l, test, scalar⟩ := scalar
  cases n with
  | zero => cases ended
  | succ n =>
    simp only [Eval.operand] at ended
    obtain ⟨d, m₁, first, rest⟩ := run_bind_ok ended
    cases n with
    | zero => cases first
    | succ n =>
      simp only [Eval.primary] at first
      have known := literal_ok scalar first
      simp only [operandValue?, known, Option.bind_eq_bind, Option.bind_some]
      split at rest
      next bare =>
        rw [Bool.and_eq_true, Option.isNone_iff_eq_none, Option.isNone_iff_eq_none] at bare
        obtain ⟨rfl, rfl⟩ := bare
        cases rest
        rfl
      next =>
        obtain ⟨v, m₂, read, rest⟩ := run_bind_ok rest
        cases read
        obtain ⟨w, m₃, computed, stored⟩ := run_bind_ok rest
        rw [locate_ok computed, newCell_ok stored]

theorem operandValue?_plain {x : Operand} {v : Value} (known : operandValue? x = some v) : v.Plain :=
  (operand_makes ⟨.right, 0⟩ x (operandConstant?_of_value known)).1

theorem operands_ok {cfg : Settings} {n : Nat} {xs : List Operand} {m m' : Machine} {vs : List Value}
    (scalars : ∀ x ∈ xs, Scalar x)
    (ended : (xs.mapM fun x => do Run.contents (← Eval.operand cfg n x)) m = .ok vs m') :
    xs.mapM operandValue? = some vs := by
  induction xs generalizing m vs with
  | nil =>
    cases ended
    rfl
  | cons x xs ih =>
    obtain ⟨scalar, others⟩ := List.forall_mem_cons.mp scalars
    rw [List.mapM_cons] at ended
    obtain ⟨v, m₁, first, rest⟩ := run_bind_ok ended
    obtain ⟨c, m₂, evaluated, read⟩ := run_bind_ok first
    cases read
    obtain ⟨ws, m₃, later, same⟩ := run_bind_ok rest
    cases same
    rw [List.mapM_cons, operand_ok scalar evaluated, ih others later]
    rfl

theorem onHeap_ok {span : Span} {f : Heap → Except Fault (Value × Heap)} {m m' : Machine} {v : Value}
    (ended : Run.onHeap span f m = .ok v m') : ∃ h, f m.heap = .ok (v, h) := by
  unfold Run.onHeap at ended
  split at ended
  next computed =>
    cases ended
    exact ⟨_, computed⟩
  next => cases ended

theorem constantValue?_of_values {x : Operand} {xs : List Operand} {span : Span}
    {ops : List (Word BinaryOp)} {first v : Value} {rest : List Value} {h h' : Heap}
    (here : operandValue? x = some first) (there : xs.mapM operandValue? = some rest)
    (counts : xs.length = ops.length)
    (reduced : Operators.reduce assoc first (ops.zip rest) h = .ok (v, h')) :
    constantValue? assoc (.mk span (x :: xs) ops) = some v := by
  have known : operandsConstant? assoc xs = some rest := operandsConstant?_of_values there
  have lengths : rest.length = ops.length := (operandsConstant?_length known).trans counts
  have plain : ∀ y ∈ ops.zip rest, y.2.Plain := fun y inside =>
    (operands_yield ⟨assoc, 0⟩ xs known).1 _ (List.of_mem_zip inside).2
  have value := (Operators.reduce_of_plain plain (operandValue?_plain here) reduced).2 .empty
  simp only [constantValue?, here, there, Option.bind_eq_bind, Option.bind_some,
    if_neg (not_not.mpr lengths), value]

/-- An expression over literals has no other value than the one that folding computes. -/
theorem expression_ok {cfg : Settings} {n : Nat} {span : Span} {xs : List Operand}
    {ops : List (Word BinaryOp)} {m m' : Machine} {v : Value} (scalars : ∀ x ∈ xs, Scalar x)
    (ended : Eval.expression cfg n (.mk span xs ops) m = (.ok v, m')) :
    constantValue? cfg.associativity (.mk span xs ops) = some v := by
  unfold Eval.expression at ended
  cases evaluated : Eval.expr cfg n (.mk span xs ops) m with
  | error stop m₁ =>
    rw [evaluated] at ended
    cases ended
  | ok c m₁ =>
    rw [evaluated] at ended
    cases ended
    match n, xs with
    | 0, _ => cases evaluated
    | _ + 1, [] => cases evaluated
    | n + 1, x :: xs =>
      obtain ⟨scalar, others⟩ := List.forall_mem_cons.mp scalars
      simp only [Eval.expr] at evaluated
      split at evaluated
      · cases evaluated
      next counts =>
      rw [not_not] at counts
      split at evaluated
      next alone =>
        obtain rfl := List.isEmpty_iff.mp alone
        obtain rfl := List.length_eq_zero_iff.mp counts.symm
        have reduced : Operators.reduce cfg.associativity (m'.heap.get c) [] .empty =
            .ok (m'.heap.get c, .empty) := rfl
        exact constantValue?_of_values (operand_ok scalar evaluated) rfl rfl reduced
      next =>
        obtain ⟨d, m₂, first, rest⟩ := run_bind_ok evaluated
        obtain ⟨_, _, read, rest⟩ := run_bind_ok rest
        cases read
        obtain ⟨vs, m₃, later, rest⟩ := run_bind_ok rest
        obtain ⟨w, m₄, computed, stored⟩ := run_bind_ok rest
        obtain ⟨h, reduced⟩ := onHeap_ok computed
        have values := operands_ok others later
        rw [newCell_ok stored]
        exact constantValue?_of_values (operand_ok scalar first) values counts reduced

/-! ### What is left -/

/-- Whether there is something to compute beside the primary. -/
def Computes : Operand → Prop
  | .mk _ op _ test => op.isSome = true ∨ test.isSome = true

/-- A literal alone. -/
def plain (span span' span'' : Span) (l : Literal) : Expr :=
  .mk span [.mk span' none (.literal span'' l) none] []

/-- What the passes are there to take away. -/
inductive Unsettled (assoc : Associativity) : Part → Prop where
  /-- An operator or a type test over literals, with a value that a literal can spell. What stands in
  parentheses is no literal: it was folded before, and stays where it fails or is not finite. -/
  | expression {span : Span} {xs : List Operand} {ops : List (Word BinaryOp)} {cfg : Settings}
      {fuel : Nat} {m m' : Machine} {v : Value} (scalars : ∀ x ∈ xs, Scalar x)
      (computes : ops ≠ [] ∨ ∃ x ∈ xs, Computes x) (grouping : cfg.associativity = assoc)
      (succeeds : Eval.expression cfg fuel (.mk span xs ops) m = (.ok v, m'))
      (spelled : ∀ x, v = .real x → Real.isFinite x = true) :
    Unsettled assoc (.expr (.mk span xs ops))
  | paren {span span₁ span₂ span₃ : Span} {l : Literal} (scalar : l.isScalar = true) :
    Unsettled assoc (.primary (.paren span (plain span₁ span₂ span₃ l)))
  | branch {span span₁ span₂ span₃ span₄ : Span} {holds : Bool} {yes no b : Body}
      (stands : .branch span (plain span₁ span₂ span₃ (.boolean span₄ holds)) yes no ∈ b.statements) :
    Unsettled assoc (.body b)
  | whileLoop {span span₁ span₂ span₃ span₄ : Span} {inside b : Body}
      (stands : .whileLoop span (plain span₁ span₂ span₃ (.boolean span₄ false)) inside ∈
        b.statements) : Unsettled assoc (.body b)
  | unreachable {before after : List Statement} {s t : Statement} {b : Body}
      (leaving : leaves s = true) (stands : b.statements = before ++ s :: t :: after) :
    Unsettled assoc (.body b)

theorem plainLiteral?_of_computes {span : Span} {xs : List Operand} {ops : List (Word BinaryOp)}
    (computes : ops ≠ [] ∨ ∃ x ∈ xs, Computes x) : plainLiteral? (.mk span xs ops) = none := by
  unfold plainLiteral?
  split
  next same =>
    cases same
    rcases computes with some | ⟨x, member, computes⟩
    · exact absurd rfl some
    · obtain rfl := List.mem_singleton.mp member
      rcases computes with op | test
      · cases op
      · cases test
  next => rfl

theorem exists_literalOf {v : Value} (plain : v.Plain)
    (spelled : ∀ x, v = .real x → Real.isFinite x = true) (span : Span) :
    ∃ l, literalOf? span v = some l := by
  cases plain with
  | real x => exact ⟨_, if_pos (spelled x rfl)⟩
  | empty | int | bool | string => exact ⟨_, rfl⟩

theorem upToLeaving_append {s : Statement} (leaving : leaves s = true)
    (before after : List Statement) :
    (upToLeaving (before ++ s :: after)).length ≤ before.length + 1 := by
  induction before with
  | nil => simp [upToLeaving, leaving]
  | cons t before ih =>
    rw [List.cons_append, upToLeaving]
    split
    · simp
    · simpa using ih

/-- A part at rest under all rules is none of that. -/
theorem not_unsettled {a : Part} (rests : ∀ pass : Pass, Rests (pass.rules assoc) a) :
    ¬ Unsettled assoc a := by
  intro unsettled
  cases unsettled with
  | @expression span xs ops cfg fuel m m' v scalars computes grouping succeeds spelled =>
    have here : foldExpr assoc (.mk span xs ops) = none :=
      Option.map_eq_none_iff.mp (rests .constantFolding).here
    have value := expression_ok scalars succeeds
    have plain := (expr_makes cfg _ (exprConstant?_of_value value)).1
    obtain ⟨l, spells⟩ := exists_literalOf plain spelled span
    rw [grouping] at value
    rw [foldExpr, plainLiteral?_of_computes computes, value] at here
    change (literalOf? span v).bind _ = none at here
    rw [spells] at here
    cases here
  | @paren span span₁ span₂ span₃ l scalar =>
    have here : unwrap (.paren span (plain span₁ span₂ span₃ l)) = none :=
      Option.map_eq_none_iff.mp (rests .constantFolding).here
    change (if l.isScalar then some (Primary.literal span l) else none) = none at here
    rw [scalar] at here
    cases here
  | branch stands => cases revise_deadBranches.mp (rests .deadBranches).here _ stands
  | whileLoop stands => cases revise_deadBranches.mp (rests .deadBranches).here _ stands
  | @unreachable before after s t b leaving stands =>
    have here := revise_unreachable.mp (rests .unreachable).here
    have short := upToLeaving_append leaving before (t :: after)
    rw [← stands, here, stands] at short
    simp at short

/-- Any passes settle in one round. A program changes if and only if a round is counted, another run
finds nothing to do, and after all passes no part of the program is left for one of them. -/
theorem passes_settle_at_once (assoc : Associativity) (wanted : Pass → Bool) (bound : Nat)
    (p : Program) :
    let passes := Pass.all.filter wanted
    let r := rounds assoc passes (bound + 1) p
    r.1 ≤ 1 ∧ (r.1 = 0 ↔ r.2 = p) ∧ (∀ again, rounds assoc passes again r.2 = (0, r.2)) ∧
      ((∀ pass, wanted pass = true) →
        ∀ a : Part, a.Within (.body r.2.body) → ¬ Unsettled assoc a) := by
  intro passes r
  have once : Settled assoc passes (round assoc passes p).value :=
    settled_round ((all_spare assoc).filter wanted) p
  have settled : Settled assoc passes r.2 ∧ r.1 ≤ 1 ∧ (r.1 = 0 ↔ r.2 = p) := by
    cases changed : (round assoc passes p).changed with
    | false =>
      have before := settled_of_unchanged changed
      have same : r = (0, p) := rounds_settled before _
      rw [same]
      exact ⟨before, Nat.zero_le 1, iff_of_true rfl rfl⟩
    | true =>
      have same : r = (1, (round assoc passes p).value) := by
        change rounds assoc passes (bound + 1) p = _
        rw [rounds, changed, rounds_settled once]
        rfl
      rw [same]
      refine ⟨once, Nat.le_refl 1, iff_of_false Nat.one_ne_zero fun kept => ?_⟩
      -- the program would have been settled before
      rw [show (1, (round assoc passes p).value).2 = (round assoc passes p).value from rfl] at kept
      rw [kept] at once
      rw [round_settled once] at changed
      cases changed
  obtain ⟨after, count, unchanged⟩ := settled
  refine ⟨count, unchanged, rounds_settled after, fun all a within => not_unsettled fun pass => ?_⟩
  have enabled : pass ∈ passes := by
    refine List.mem_filter.mpr ⟨?_, all pass⟩
    cases pass <;> decide
  exact (after pass enabled).within within

namespace Example

def compared : Expr :=
  .mk .zero [.mk .zero none (.paren .zero (.mk .zero [
    .mk .zero none (.literal .zero (.integer .zero 1)) none,
    .mk .zero none (.literal .zero (.integer .zero 2)) none] [.known .less])) none] []

def chained : Program :=
  ⟨.zero, .mk .zero [
    .branch .zero compared (.mk .zero [.ret .zero .missing, .print .zero [compared]] false) .missing,
    .ret .zero .missing,
    .print .zero []] false⟩

end Example

open CellScript.Optimize.Example in
/-- The statements after a `return` are gone, and so is the branch before it. -/
theorem passes_settle_at_once_chained :
    Unsettled .right (.body chained.body) ∧
      (rounds .right (Pass.all.filter fun _ => true) 16 chained).1 = 1 ∧
      ¬ Unsettled .right
        (.body (rounds .right (Pass.all.filter fun _ => true) 16 chained).2.body) := by
  have settles := passes_settle_at_once .right (fun _ => true) 15 chained
  refine ⟨?_, by decide +kernel, settles.2.2.2 (fun _ => rfl) _ .refl⟩
  have leaving : leaves (.ret .zero .missing) = true := rfl
  exact @Unsettled.unreachable _ [_] _ _ _ _ leaving rfl

end CellScript.Optimize
