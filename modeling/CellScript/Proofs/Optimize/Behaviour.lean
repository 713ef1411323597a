import CellScript.Proofs.Optimize.Evaluation
import CellScript.Proofs.Optimize.Revision
import CellScript.Proofs.Reachable

/-! Optimisation keeps behaviour. Related trees follow each other in evaluation, by induction on the
bound of the left run; since the relation may be turned around, a program ends if and only if the
optimised one does, and in the same way. -/
namespace CellScript.Optimize

open Run

/-- Code of functions whose trees are related. -/
inductive CodeAlike (T : Part → Part → Prop) : Code → Code → Prop where
  | expression {e e' : Expr} (related : T (.expr e) (.expr e')) :
    CodeAlike T (.expression e) (.expression e')
  | statements {b b' : Body} (related : T (.body b) (.body b')) :
    CodeAlike T (.statements b) (.statements b')

theorem CodeAlike.swap (T : Part → Part → Prop) :
    Function.swap (CodeAlike T) = CodeAlike (Function.swap T) := by
  funext c d
  refine propext ⟨fun related => ?_, fun related => ?_⟩
  · cases related with
    | expression related => exact .expression related
    | statements related => exact .statements related
  · cases related with
    | expression related => exact CodeAlike.expression (T := T) related
    | statements related => exact CodeAlike.statements (T := T) related

variable {assoc : Associativity} {cfg : Settings} {T : Part → Part → Prop} {n : Nat}

namespace Faithful

variable {e e' : Expr}

theorem span_eq (faithful : Faithful assoc T) (related : T (.expr e) (.expr e')) :
    e.span = e'.span := by
  cases faithful _ _ related with
  | noExpr => rfl
  | expr _ => rfl
  | constant spans _ _ => exact spans

theorem isMissing_eq (faithful : Faithful assoc T) (related : T (.expr e) (.expr e')) :
    e.isMissing = e'.isMissing := by
  cases faithful _ _ related with
  | noExpr => rfl
  | expr _ => rfl
  | constant _ left right =>
    cases e with
    | missing => cases left
    | mk =>
      cases e' with
      | missing => cases right
      | mk => rfl

end Faithful

/-! ### Function literals -/

def denotesFunction : Primary → Bool
  | .literal _ (.function ..) | .literal _ (.lambda ..) => true
  | _ => false

theorem isFunctionLiteral_single (span span' : Span) (op : Option (Word UnaryOp)) (p : Primary)
    (test : Option (Word TypeName)) (ops : List (Word BinaryOp)) :
    Eval.isFunctionLiteral (.mk span [.mk span' op p test] ops) =
      (op.isNone && test.isNone && denotesFunction p) := by
  cases op with
  | some _ => simp [Eval.isFunctionLiteral]
  | none =>
    cases test with
    | some _ => simp [Eval.isFunctionLiteral]
    | none =>
      cases p with
      | literal _ l => cases l <;> rfl
      | read | ref | paren => rfl

theorem isFunctionLiteral_many (span : Span) (x y : Operand) (xs : List Operand)
    (ops : List (Word BinaryOp)) : Eval.isFunctionLiteral (.mk span (x :: y :: xs) ops) = false := by
  simp [Eval.isFunctionLiteral]

theorem isFunctionLiteral_of_constant {e : Expr} {v : Value}
    (known : exprConstant? assoc e = some v) : Eval.isFunctionLiteral e = false := by
  unfold Eval.isFunctionLiteral
  split
  · cases known
  · cases known
  · rfl

theorem denotesFunction_of_constant {p : Primary} {v : Value}
    (known : primaryConstant? assoc p = some v) : denotesFunction p = false := by
  unfold denotesFunction
  split
  · cases known
  · cases known
  · rfl

namespace Faithful

theorem denotesFunction_eq (faithful : Faithful assoc T) {p p' : Primary}
    (related : T (.primary p) (.primary p')) : denotesFunction p = denotesFunction p' := by
  cases faithful _ _ related with
  | read | ref _ | paren _ => rfl
  | known left right =>
    rw [denotesFunction_of_constant left, denotesFunction_of_constant right]
  | value literals =>
    cases faithful _ _ literals with
    | scalar _ | array _ | tuple _ | function _ | lambda _ => rfl

/-- No pass makes or hides a function that is declared, so the same functions know themselves. -/
theorem isFunctionLiteral_eq (faithful : Faithful assoc T) {e e' : Expr}
    (related : T (.expr e) (.expr e')) :
    Eval.isFunctionLiteral e = Eval.isFunctionLiteral e' := by
  cases faithful _ _ related with
  | noExpr => rfl
  | constant _ left right =>
    rw [isFunctionLiteral_of_constant left, isFunctionLiteral_of_constant right]
  | expr operands =>
    cases operands with
    | nil => rfl
    | cons head rest =>
      cases rest with
      | cons _ _ => rw [isFunctionLiteral_many, isFunctionLiteral_many]
      | nil =>
        cases faithful _ _ head with
        | operand inside =>
          rw [isFunctionLiteral_single, isFunctionLiteral_single, faithful.denotesFunction_eq inside]

end Faithful

/-! ### Related trees follow each other -/

/-- Under a bound of `n`, every related tree on the right follows the one on the left. -/
structure Simulates (cfg : Settings) (T : Part → Part → Prop) (n : Nat) : Prop where
  expr {e e' : Expr} (related : T (.expr e) (.expr e')) (R : Pairing) :
    Follows (CodeAlike T) R Pairing.pairs (Eval.expr cfg n e) fun k => Eval.expr cfg k e'
  operand {x x' : Operand} (related : T (.operand x) (.operand x')) (R : Pairing) :
    Follows (CodeAlike T) R Pairing.pairs (Eval.operand cfg n x) fun k => Eval.operand cfg k x'
  primary {p p' : Primary} (related : T (.primary p) (.primary p')) (R : Pairing) :
    Follows (CodeAlike T) R Pairing.pairs (Eval.primary cfg n p) fun k => Eval.primary cfg k p'
  tail {t t' : Tail} (related : T (.tail t) (.tail t')) {R : Pairing} {c c' : CellRef}
    (paired : R.pairs c c') :
    Follows (CodeAlike T) R Pairing.pairs (Eval.tail cfg n c t) fun k => Eval.tail cfg k c' t'
  call {R : Pairing} {f f' : Closure} (functions : Closure.Alike (CodeAlike T) R f f')
    {as as' : List CellRef} (paired : List.Forall₂ R.pairs as as') (site : Span) :
    Follows (CodeAlike T) R Pairing.pairs (Eval.call cfg n f as site)
      fun k => Eval.call cfg k f' as' site
  literal {l l' : Literal} (related : T (.literal l) (.literal l')) (R : Pairing) :
    Follows (CodeAlike T) R Pairing.pairs (Eval.literal cfg n l) fun k => Eval.literal cfg k l'
  condition {e e' : Expr} (related : T (.expr e) (.expr e')) (construct : String) (R : Pairing) :
    Follows (CodeAlike T) R (fun _ => Eq) (Eval.condition cfg n construct e)
      fun k => Eval.condition cfg k construct e'
  bound {e e' : Expr} (related : T (.expr e) (.expr e')) (which : String) (R : Pairing) :
    Follows (CodeAlike T) R (fun _ => Eq) (Eval.bound cfg n which e)
      fun k => Eval.bound cfg k which e'
  statement {s s' : Statement} (related : T (.statement s) (.statement s')) (R : Pairing) :
    Follows (CodeAlike T) R (fun _ => Eq) (Eval.statement cfg n s) fun k => Eval.statement cfg k s'
  takenLeft {span : Span} {e : Expr} {yes no b : Body} {holds : Bool}
    (constant : exprConstant? cfg.associativity e = some (.bool holds))
    (taken : T (.body (if holds then yes else no)) (.body b)) (R : Pairing) :
    Follows (CodeAlike T) R (fun _ => Eq) (Eval.statement cfg n (.branch span e yes no))
      fun k => Eval.statement cfg k (.block b)
  takenRight {span : Span} {e : Expr} {yes no b : Body} {holds : Bool}
    (constant : exprConstant? cfg.associativity e = some (.bool holds))
    (taken : T (.body b) (.body (if holds then yes else no))) (R : Pairing) :
    Follows (CodeAlike T) R (fun _ => Eq) (Eval.statement cfg n (.block b))
      fun k => Eval.statement cfg k (.branch span e yes no)
  block {b b' : Body} (related : T (.body b) (.body b')) (R : Pairing) :
    Follows (CodeAlike T) R (fun _ => Eq) (Eval.block cfg n b) fun k => Eval.block cfg k b'

/-- A statement that leaves never comes to its end. -/
theorem statement_ne_ok (cfg : Settings) (n : Nat) {s : Statement} (leaving : leaves s = true)
    (m m' : Machine) : Eval.statement cfg n s m ≠ .ok () m' := by
  cases n with
  | zero => exact nofun
  | succ n =>
    cases s with
    | brk _ | cont _ => exact nofun
    | ret span value =>
      have throws (x : Run CellRef) : (x >>= fun c => throw (.ret c) : Run Unit) m ≠ .ok () m' := by
        change EStateM.bind x _ m ≠ _
        unfold EStateM.bind
        split <;> exact nofun
      simp only [Eval.statement]
      split <;> exact throws _
    | declare | assign | branch | forLoop | whileLoop | print | block => cases leaving

theorem Follows.of_ne_ok {σ : Code → Code → Prop} {R : Pairing} {α β : Type}
    {Q : Pairing → α → β → Prop} {x : Run α} {y : Nat → Run β} (follows : Follows σ R Q x y)
    (stops : ∀ m a m', x m ≠ .ok a m') : Follows σ R (fun _ _ _ => False) x y := by
  intro S above m n alike
  obtain out | ⟨U, more, r, settles, ended⟩ := follows S above m n alike
  · exact .inl out
  · have stops := stops m
    generalize x m = left at ended stops
    cases ended with
    | ok _ _ => exact absurd rfl (stops _ _)
    | error alike machines => exact .inr ⟨U, more, _, settles, .error alike machines⟩

namespace Simulates

variable (faithful : Faithful cfg.associativity T)
include faithful

theorem expr_succ (sim : Simulates cfg T n) {e e' : Expr} (related : T (.expr e) (.expr e'))
    (R : Pairing) : Follows (CodeAlike T) R Pairing.pairs (Eval.expr cfg (n + 1) e)
      fun k => Eval.expr cfg k e' := by
  cases faithful _ _ related with
  | noExpr => exact .shift (.fail _ _)
  | constant _ left right =>
    obtain ⟨plain, here⟩ := expr_makes cfg e left
    obtain ⟨-, there⟩ := expr_makes cfg e' right
    exact .makes plain here (fun k => (Eval.deepens cfg k).expr e) there (n + 1)
  | expr operands =>
    apply Follows.shift
    cases operands with
    | nil => exact .fail _ _
    | @cons x y xs ys head rest =>
      have lengths := rest.length_eq
      have empty : xs.isEmpty = ys.isEmpty := by cases rest <;> rfl
      simp only [Eval.expr, lengths, empty]
      split
      · exact .fail _ _
      split
      · exact sim.operand head R
      refine .bind (sim.operand head R) fun S above c d paired => ?_
      refine .bind (.contents paired) fun S above first first' firsts => ?_
      refine .bind (.mapM stable_values rest fun x y related =>
        .bind (sim.operand related S) fun _ _ _ _ paired => .contents paired) ?_
      intro U more values values' alike
      refine .bind (.onHeap _ fun V more' h h' heaps => ?_) fun V _ v w values => .newCell values
      exact Operators.reduce_rel (alike.imp fun _ _ values => values.mono more')
        (firsts.mono (more.trans more')) heaps _ _

theorem operand_succ (sim : Simulates cfg T n) {x x' : Operand}
    (related : T (.operand x) (.operand x')) (R : Pairing) :
    Follows (CodeAlike T) R Pairing.pairs (Eval.operand cfg (n + 1) x)
      fun k => Eval.operand cfg k x' := by
  cases faithful _ _ related with
  | operand inside =>
    apply Follows.shift
    simp only [Eval.operand]
    refine .bind (sim.primary inside R) fun S above c d paired => ?_
    split
    · exact .pure stable_pairs paired
    · refine .bind (.contents paired) fun S above v w values => ?_
      exact .bind (.operand _ values _ _) fun S above v w values => .newCell values

theorem primary_succ (sim : Simulates cfg T n) {p p' : Primary}
    (related : T (.primary p) (.primary p')) (R : Pairing) :
    Follows (CodeAlike T) R Pairing.pairs (Eval.primary cfg (n + 1) p)
      fun k => Eval.primary cfg k p' := by
  cases faithful _ _ related with
  | read => exact .shift (.bind (.readValue _ _) fun S above v w values => .newCell values)
  | ref tails =>
    apply Follows.shift
    simp only [Eval.primary]
    refine .bind (.lookup _ _) fun S above c d paired => ?_
    exact .foldlM tails stable_pairs (fun U _ c d t u paired related => sim.tail related paired)
      paired
  | value inside => exact .shift (sim.literal inside R)
  | paren inside => exact .shift (sim.expr inside R)
  | known left right =>
    obtain ⟨plain, here⟩ := primary_makes cfg p left
    obtain ⟨-, there⟩ := primary_makes cfg p' right
    exact .makes plain here (fun k => (Eval.deepens cfg k).primary p) there (n + 1)

theorem tail_succ (sim : Simulates cfg T n) {t t' : Tail} (related : T (.tail t) (.tail t'))
    {R : Pairing} {c c' : CellRef} (paired : R.pairs c c') :
    Follows (CodeAlike T) R Pairing.pairs (Eval.tail cfg (n + 1) c t)
      fun k => Eval.tail cfg k c' t' := by
  apply Follows.shift
  simp only [Eval.tail]
  refine .bind (.contents paired) fun S above v w values => ?_
  cases faithful _ _ related with
  | index => exact .itemAt _ _ values
  | field => exact .itemNamed _ _ values
  | subscript inside =>
    simp only [faithful.span_eq inside]
    exact .bind (sim.expr inside S) fun U more c d paired => .itemUnder _ _ paired (values.mono more)
  | call arguments =>
    cases values with
    | func functions =>
      refine .bind (.mapM stable_pairs arguments fun e e' related => sim.expr related S) ?_
      intro U more as as' paired
      exact sim.call (functions.mono more) paired _
    | empty | int | real | bool | string | array | tuple => exact .fail _ _

omit faithful in
theorem matched (sim : Simulates cfg T n) {ss ts : List Statement}
    (matched : Matched cfg.associativity T ss ts) (R : Pairing) :
    Follows (CodeAlike T) R (fun _ => Eq) (ss.forM (Eval.statement cfg n))
      fun k => ts.forM (Eval.statement cfg k) := by
  induction matched generalizing R with
  | nil => exact .pure stable_eq rfl
  | cons head _ ih => exact .bind (sim.statement head R) fun S above _ _ _ => ih S
  | leave head left right =>
    have stops := Follows.of_ne_ok (sim.statement head R)
      fun m _ m' => statement_ne_ok cfg n left m m'
    exact .bind stops fun _ _ _ _ impossible => impossible.elim
  | idleLeft idles _ ih =>
    exact .yields_left (statement_idles cfg _ idles) (fun k => (Eval.deepens cfg k).statement _) n
      (ih R)
  | idleRight idles _ ih => exact .yields_right (statement_idles cfg _ idles) (ih R)
  | takenLeft constant taken _ ih =>
    exact .bind (sim.takenLeft constant taken R) fun S above _ _ _ => ih S
  | takenRight constant taken _ ih =>
    exact .bind (sim.takenRight constant taken R) fun S above _ _ _ => ih S

theorem statements (sim : Simulates cfg T n) {b b' : Body} (related : T (.body b) (.body b'))
    (R : Pairing) : Follows (CodeAlike T) R (fun _ => Eq) (b.statements.forM (Eval.statement cfg n))
      fun k => b'.statements.forM (Eval.statement cfg k) := by
  cases faithful _ _ related with
  | noBody => exact .pure stable_eq rfl
  | body statements => exact sim.matched statements R

theorem call_succ (sim : Simulates cfg T n) {R : Pairing} {f f' : Closure}
    (functions : Closure.Alike (CodeAlike T) R f f') {as as' : List CellRef}
    (paired : List.Forall₂ R.pairs as as') (site : Span) :
    Follows (CodeAlike T) R Pairing.pairs (Eval.call cfg (n + 1) f as site)
      fun k => Eval.call cfg k f' as' site := by
  apply Follows.shift
  have arities : f.arity = f'.arity := congrArg List.length functions.params
  simp only [Eval.call, paired.length_eq, arities, functions.span, functions.params]
  split
  · exact .fail _ _
  refine .bind (Q := fun _ m m' => m.calls = m'.calls)
    (.step fun S above m m' alike => ⟨S, le_rfl, .ok alike.calls alike⟩) ?_
  intro S above m m' calls
  simp only [calls]
  split
  · exact .fail _ _
  have functions := functions.mono above
  have bindings := functions.captured.override
    (.zip (paired.imp fun c d paired => above c d paired) f'.params)
  refine .asCall (.inFrame _ bindings ?_) site
  obtain ⟨span, params, code, captured⟩ := f
  obtain ⟨span', params', code', captured'⟩ := f'
  cases functions.code with
  | expression related =>
    exact .bind (sim.expr related S) fun U more c d paired => .pure stable_option (.some paired)
  | statements related =>
    exact .bind (sim.statements faithful related S) fun U more _ _ _ => .pure stable_option .none

theorem literal_succ (sim : Simulates cfg T n) {l l' : Literal}
    (related : T (.literal l) (.literal l')) (R : Pairing) :
    Follows (CodeAlike T) R Pairing.pairs (Eval.literal cfg (n + 1) l)
      fun k => Eval.literal cfg k l' := by
  apply Follows.shift
  cases faithful _ _ related with
  | scalar same =>
    cases l with
    | missing => exact .fail _ _
    | integer _ k => exact .newCell (.int k)
    | real _ x => exact .newCell (.real x)
    | boolean _ b => exact .newCell (.bool b)
    | string _ t => exact .newCell (.string t)
    | empty _ => exact .newCell .empty
    | array | tuple | function | lambda => simp [Literal.isScalar] at same
  | array elements =>
    simp only [Eval.literal]
    refine .bind (.mapM stable_pairs elements fun e e' related => sim.expr related R) ?_
    intro S above cs ds paired
    exact .bind (.newArray paired) fun U more v w values => .newCell values
  | tuple elements =>
    simp only [Eval.literal]
    refine .bind (.mapM stable_fields elements ?_) ?_
    · rintro ⟨span, name, value⟩ ⟨span', name', value'⟩ related
      cases faithful _ _ related with
      | element inside =>
        refine .bind (sim.expr inside R) fun S above c d paired => ?_
        exact .pure stable_fields ⟨rfl, paired⟩
    · intro S above fs gs fields
      exact .bind (.newTuple _ fields) fun U more v w values => .newCell values
  | function inside => exact .closure _ _ (.statements inside)
  | lambda inside => exact .closure _ _ (.expression inside)

theorem condition_succ (sim : Simulates cfg T n) {e e' : Expr} (related : T (.expr e) (.expr e'))
    (construct : String) (R : Pairing) :
    Follows (CodeAlike T) R (fun _ => Eq) (Eval.condition cfg (n + 1) construct e)
      fun k => Eval.condition cfg k construct e' := by
  apply Follows.shift
  simp only [Eval.condition, faithful.span_eq related]
  refine .bind (sim.expr related R) fun S above c d paired => ?_
  refine .bind (.contents paired) fun S above v w values => ?_
  cases values with
  | bool b => exact .pure stable_eq rfl
  | func _ => exact .fail _ _
  | empty | int | real | string | array | tuple => exact .fail _ _

theorem bound_succ (sim : Simulates cfg T n) {e e' : Expr} (related : T (.expr e) (.expr e'))
    (which : String) (R : Pairing) :
    Follows (CodeAlike T) R (fun _ => Eq) (Eval.bound cfg (n + 1) which e)
      fun k => Eval.bound cfg k which e' := by
  apply Follows.shift
  simp only [Eval.bound, faithful.span_eq related]
  refine .bind (sim.expr related R) fun S above c d paired => ?_
  refine .bind (.contents paired) fun S above v w values => ?_
  cases values with
  | int k => exact .pure stable_eq rfl
  | func _ => exact .fail _ _
  | empty | bool | real | string | array | tuple => exact .fail _ _

theorem statement_succ (sim : Simulates cfg T n) {s s' : Statement}
    (related : T (.statement s) (.statement s')) (R : Pairing) :
    Follows (CodeAlike T) R (fun _ => Eq) (Eval.statement cfg (n + 1) s)
      fun k => Eval.statement cfg k s' := by
  apply Follows.shift
  cases faithful _ _ related with
  | declare initial =>
    simp only [Eval.statement, faithful.isMissing_eq initial, faithful.isFunctionLiteral_eq initial]
    split
    · exact .bind (.newCell .empty) fun S above c d paired => .bindName _ paired
    refine .bind (sim.expr initial R) fun S above c d paired => ?_
    refine .bind (.bindName _ paired) fun U more _ _ _ => ?_
    split
    · exact .knowItself _ (more _ _ paired)
    · exact .pure stable_eq rfl
  | @assign span p p' op e e' target value =>
    simp only [Eval.statement, faithful.isMissing_eq value]
    refine .bind (sim.primary target R) fun S above c d paired => ?_
    cases op with
    | none => exact .pure stable_eq rfl
    | some op =>
      dsimp only
      split
      · exact .pure stable_eq rfl
      refine .bind (sim.expr value S) fun U more c' d' paired' => ?_
      refine .bind (.contents paired') fun V more' v w values => ?_
      exact .assignTo _ (more' _ _ (more _ _ paired)) _ values
  | branch condition yes no =>
    simp only [Eval.statement]
    refine .bind (sim.condition condition _ R) fun S above holds _ same => ?_
    cases same
    split
    · exact sim.block yes S
    · exact sim.block no S
  | forLoop low high inside =>
    simp only [Eval.statement]
    refine .bind (sim.bound low _ R) fun S above first _ same => ?_
    cases same
    refine .bind (sim.bound high _ S) fun U more last _ same => ?_
    cases same
    refine .inFrame _ .nil (.forCount (fun v => ?_) _ _)
    refine .bind (.newCell (.int v)) fun V above c d paired => ?_
    exact .bind (.bindName _ paired) fun W above _ _ _ => sim.block inside W
  | whileLoop condition inside =>
    simp only [Eval.statement]
    exact .whileHolds (sim.condition condition _ R) (sim.block inside R) n 0
  | print arguments =>
    simp only [Eval.statement]
    refine .forM arguments fun e e' related => ?_
    refine .bind (sim.expr related R) fun S above c d paired => ?_
    exact .bind (.contents paired) fun U more v w values => .print _ values
  | ret value =>
    simp only [Eval.statement, faithful.isMissing_eq value]
    have returned {S : Pairing} {c d : CellRef} (paired : S.pairs c d) :
        Follows (CodeAlike T) S (fun _ => Eq) (throw (.ret c) : Run Unit) fun _ => throw (.ret d) :=
      .throw fun U more => .ret (more _ _ paired)
    split
    · exact .bind (.newCell .empty) fun S above c d paired => returned paired
    · exact .bind (sim.expr value R) fun S above c d paired => returned paired
  | brk => exact .throw fun _ _ => .brk _
  | cont => exact .throw fun _ _ => .cont _
  | block inside => exact sim.block inside R

omit faithful in
theorem takenLeft_succ (sim : Simulates cfg T n) {span : Span} {e : Expr} {yes no b : Body}
    {holds : Bool} (constant : exprConstant? cfg.associativity e = some (.bool holds))
    (taken : T (.body (if holds then yes else no)) (.body b)) (R : Pairing) :
    Follows (CodeAlike T) R (fun _ => Eq) (Eval.statement cfg (n + 1) (.branch span e yes no))
      fun k => Eval.statement cfg k (.block b) := by
  apply Follows.shift
  simp only [Eval.statement]
  refine .yields_left (condition_yields cfg "if" constant)
    (fun k => (Eval.deepens cfg k).condition "if" e) n ?_
  cases holds with
  | true => exact sim.block taken R
  | false => exact sim.block taken R

omit faithful in
theorem takenRight_succ (sim : Simulates cfg T n) {span : Span} {e : Expr} {yes no b : Body}
    {holds : Bool} (constant : exprConstant? cfg.associativity e = some (.bool holds))
    (taken : T (.body b) (.body (if holds then yes else no))) (R : Pairing) :
    Follows (CodeAlike T) R (fun _ => Eq) (Eval.statement cfg (n + 1) (.block b))
      fun k => Eval.statement cfg k (.branch span e yes no) := by
  apply Follows.shift
  simp only [Eval.statement]
  refine .yields_right (condition_yields cfg "if" constant) ?_
  cases holds with
  | true => exact sim.block taken R
  | false => exact sim.block taken R

theorem block_succ (sim : Simulates cfg T n) {b b' : Body} (related : T (.body b) (.body b'))
    (R : Pairing) : Follows (CodeAlike T) R (fun _ => Eq) (Eval.block cfg (n + 1) b)
      fun k => Eval.block cfg k b' := by
  apply Follows.shift
  cases faithful _ _ related with
  | noBody => exact .pure stable_eq rfl
  | body statements => exact .inFrame _ .nil (sim.matched statements R)

end Simulates

theorem simulates (faithful : Faithful cfg.associativity T) (n : Nat) : Simulates cfg T n := by
  induction n with
  | zero => constructor <;> intros <;> exact .exhausted _
  | succ n sim =>
    exact {
      expr := sim.expr_succ faithful
      operand := sim.operand_succ faithful
      primary := sim.primary_succ faithful
      tail := sim.tail_succ faithful
      call := sim.call_succ faithful
      literal := sim.literal_succ faithful
      condition := sim.condition_succ faithful
      bound := sim.bound_succ faithful
      statement := sim.statement_succ faithful
      takenLeft := sim.takenLeft_succ
      takenRight := sim.takenRight_succ
      block := sim.block_succ faithful }

/-! ### Whole programs -/

theorem finish_alike {σ : Code → Code → Prop} {R : Pairing} {m m' : Machine}
    (alike : Machine.Alike σ R m m') (o : Eval.Outcome) :
    (Eval.finish o m).1 = (Eval.finish o m').1 ∧
      Machine.Alike σ R (Eval.finish o m).2 (Eval.finish o m').2 := by
  have closed : Machine.Alike σ R { m with output := m.output.close }
      { m' with output := m'.output.close } :=
    { alike with output := congrArg Output.close alike.output }
  cases o with
  | done => exact ⟨by simp only [Eval.finish, alike.output], closed⟩
  | failed e => exact ⟨rfl, closed⟩
  | outputRefused => exact ⟨rfl, closed⟩
  | exhausted => exact ⟨rfl, closed⟩

theorem conclude_alike {σ : Code → Code → Prop} {R : Pairing} {Q : Pairing → Unit → Unit → Prop}
    {r r' : EStateM.Result Stop Machine Unit} (ended : Ended σ R Q r r') :
    (Eval.conclude r).1 = (Eval.conclude r').1 ∧
      Machine.Alike σ R (Eval.conclude r).2 (Eval.conclude r').2 := by
  cases ended with
  | ok _ machines => exact finish_alike machines .done
  | error stops machines =>
    rename_i s t m n
    have discarded : Machine.Alike σ R { m with scopes := m.scopes.reset, calls := 0 }
        { n with scopes := n.scopes.reset, calls := 0 } :=
      { machines with scopes := machines.scopes.reset, calls := rfl }
    cases stops with
    | ret paired => exact finish_alike machines .done
    | fault e => exact finish_alike discarded (.failed e)
    | brk span => exact finish_alike discarded (.failed ⟨.strayBreak, span, []⟩)
    | cont span => exact finish_alike discarded (.failed ⟨.strayContinue, span, []⟩)

theorem machines_of_ended {σ : Code → Code → Prop} {R : Pairing} {α : Type}
    {Q : Pairing → α → α → Prop} {r : EStateM.Result Stop Machine α} (ended : Ended σ R Q r r) :
    match r with
    | .ok _ m | .error _ m => Machine.Alike σ R m m := by
  cases ended with
  | ok _ machines => exact machines
  | error _ machines => exact machines

/-- A run that ends on the left ends alike on the right. -/
theorem ends_of_related (faithful : Faithful cfg.associativity T) {p p' : Program}
    (related : T (.body p.body) (.body p'.body)) {R : Pairing} {m m' f : Machine}
    (start : Machine.Alike (CodeAlike T) R m m') {o : Eval.Outcome} (ends : Eval.Ends cfg p m o f) :
    ∃ f' S, Eval.Ends cfg p' m' o f' ∧ Machine.Alike (CodeAlike T) S f f' := by
  obtain ⟨ends, n, ran⟩ := ends
  rw [Eval.program_eq_conclude] at ran
  obtain ⟨m₁, out⟩ | ⟨S, -, r, ⟨fuel, settles⟩, ended⟩ :=
    (simulates faithful n).statements faithful related R R le_rfl m m' start
  · rw [out] at ran
    exact absurd (congrArg Prod.fst ran).symm ends
  · obtain ⟨outcomes, machines⟩ := conclude_alike ended
    rw [ran] at outcomes machines
    refine ⟨(Eval.conclude r).2, S, ⟨ends, fuel, ?_⟩, machines⟩
    have there := settles fuel (Nat.le_refl fuel)
    rw [Eval.program_eq_conclude]
    exact (congrArg Eval.conclude there).trans (Prod.ext outcomes.symm rfl)

/-- Machines that differ only in garbage and in functions whose code some passes have revised. -/
def Interchangeable (assoc : Associativity) (m m' : Machine) : Prop :=
  ∃ R, Machine.Alike (CodeAlike (Revision assoc)) R m m'

namespace Interchangeable

variable {m m' f f' : Machine}

theorem output_eq (same : Interchangeable assoc m m') : m.output = m'.output := by
  obtain ⟨R, alike⟩ := same
  exact alike.output

theorem global_names (same : Interchangeable assoc m m') :
    m.scopes.globals.map (·.1) = m'.scopes.globals.map (·.1) := by
  obtain ⟨R, alike⟩ := same
  exact alike.scopes.globals.names

/-- What the original does, the revision does. -/
theorem revised_ends (start : Interchangeable cfg.associativity m m') {p p' : Program}
    (revision : Revision cfg.associativity (.body p.body) (.body p'.body)) {o : Eval.Outcome}
    (ends : Eval.Ends cfg p m o f) :
    ∃ f', Eval.Ends cfg p' m' o f' ∧ Interchangeable cfg.associativity f f' := by
  obtain ⟨R, alike⟩ := start
  obtain ⟨f', S, ends, machines⟩ :=
    ends_of_related (revision_faithful cfg.associativity) revision alike ends
  exact ⟨f', ends, S, machines⟩

/-- What the revision does, the original does. -/
theorem original_ends (start : Interchangeable cfg.associativity m m') {p p' : Program}
    (revision : Revision cfg.associativity (.body p.body) (.body p'.body)) {o : Eval.Outcome}
    (ends : Eval.Ends cfg p' m' o f') :
    ∃ f, Eval.Ends cfg p m o f ∧ Interchangeable cfg.associativity f f' := by
  obtain ⟨R, alike⟩ := start
  have turned := alike.flip
  rw [CodeAlike.swap] at turned
  obtain ⟨f, S, ends, machines⟩ :=
    ends_of_related (revision_faithful cfg.associativity).flip revision turned ends
  have back := machines.flip
  rw [CodeAlike.swap] at back
  exact ⟨f, ends, S.flip, back⟩

theorem initial (assoc : Associativity) : Interchangeable assoc .initial .initial :=
  ⟨.upTo 0, .empty _, ⟨.nil, .nil⟩, rfl, rfl, rfl⟩

/-- Every state that can come about may take the place of itself. -/
theorem of_reachable (reached : Reachable cfg m) : Interchangeable cfg.associativity m m := by
  induction reached with
  | initial => exact .initial _
  | connect _ input output ih =>
    obtain ⟨R, alike⟩ := ih
    exact ⟨R, { alike with output := rfl, input := rfl }⟩
  | program _ ends ih =>
    obtain ⟨f, ends', same⟩ := ih.revised_ends (.refl _) ends
    obtain ⟨-, rfl⟩ := ends.unique ends'
    exact same
  | @expression m m' e fuel r _ ran ends ih =>
    obtain ⟨R, alike⟩ := ih
    unfold Eval.expression at ran
    have kept : ¬ ∃ m', Eval.expr cfg fuel e m = .error .exhausted m' := by
      rintro ⟨m', out⟩
      rw [out] at ran
      exact ends (congrArg Prod.fst ran).symm
    obtain out | ⟨S, -, r', ⟨bound, settles⟩, ended⟩ :=
      (simulates (revision_faithful cfg.associativity) fuel).expr (.refl (.expr e)) R R le_rfl
        m m alike
    · exact absurd out kept
    have raised := Refines.of_le (fun n => (Eval.deepens cfg n).expr e)
      (Nat.le_max_left fuel bound) m
    have same : Eval.expr cfg fuel e m = r' :=
      (raised.resolve_right kept).trans (settles _ (Nat.le_max_right fuel bound))
    rw [same] at ran ended
    have machines := machines_of_ended ended
    cases r' with
    | ok c f =>
      cases ran
      exact ⟨S, machines⟩
    | error stop f =>
      cases ran
      exact ⟨S, machines⟩

end Interchangeable

/-- The optimised program ends if and only if the program does, with the same outcome and output;
the global names and, up to the code of functions, the heap are the same afterwards. -/
theorem optimised_program_behaves_alike (cfg : Settings) (passes : List Pass) (bound : Nat)
    (p : Program) {m m' : Machine} (start : Interchangeable cfg.associativity m m')
    (o : Eval.Outcome) :
    (∀ f, Eval.Ends cfg p m o f →
      ∃ f', Eval.Ends cfg (rounds cfg.associativity passes bound p).2 m' o f' ∧
        f.output = f'.output ∧ f.scopes.globals.map (·.1) = f'.scopes.globals.map (·.1) ∧
        Interchangeable cfg.associativity f f') ∧
    (∀ f', Eval.Ends cfg (rounds cfg.associativity passes bound p).2 m' o f' →
      ∃ f, Eval.Ends cfg p m o f ∧
        f.output = f'.output ∧ f.scopes.globals.map (·.1) = f'.scopes.globals.map (·.1) ∧
        Interchangeable cfg.associativity f f') := by
  have revision := rounds_revision cfg.associativity passes bound p (.refl (.body p.body))
  constructor
  · intro f ends
    obtain ⟨f', ends, same⟩ := start.revised_ends revision ends
    exact ⟨f', ends, same.output_eq, same.global_names, same⟩
  · intro f' ends
    obtain ⟨f, ends, same⟩ := start.original_ends revision ends
    exact ⟨f, ends, same.output_eq, same.global_names, same⟩

/-! ### A function whose code was folded in an earlier program -/

namespace Example

def sum : Expr :=
  .mk .zero [.mk .zero none (.literal .zero (.integer .zero 1)) none,
    .mk .zero none (.literal .zero (.integer .zero 2)) none] [.known .add]

/-- The machine after a program that declared a function, named by one byte, with the given code. -/
def declared (code : Expr) : Machine :=
  { Machine.initial with
    heap := ⟨#[.func ⟨.zero, [], .expression code, []⟩], #[], #[]⟩
    scopes := ⟨[([102], ⟨0⟩)], []⟩ }

def caller : Program :=
  ⟨.zero, .mk .zero [.branch .zero
    (.mk .zero [.mk .zero none (.literal .zero (.boolean .zero true)) none] [])
    (.mk .zero [.ret .zero (.mk .zero [.mk .zero none (.ref .zero [102] [.call .zero []]) none] [])]
      false) .missing] false⟩

end Example

open Optimize.Example in
theorem declared_interchangeable (assoc : Associativity) :
    Interchangeable assoc (declared sum) (declared (Walk.expr (foldRules assoc) sum).value) := by
  have folded : CodeAlike (Revision assoc) (.expression sum)
      (.expression (Walk.expr (foldRules assoc) sum).value) :=
    .expression (.single ⟨.constantFolding, rfl⟩)
  refine ⟨.upTo 1, ?_⟩
  constructor
  case scopes => exact ⟨.cons ⟨rfl, rfl, Nat.one_pos⟩ .nil, .nil⟩
  case calls => rfl
  case output => rfl
  case input => rfl
  case heap =>
    constructor
    case left_bound => exact fun paired => paired.2
    case right_bound => exact fun paired => paired.1 ▸ paired.2
    case contents =>
      rintro ⟨c⟩ d ⟨rfl, inside⟩
      obtain rfl : c = 0 := Nat.lt_one_iff.mp inside
      exact .func ⟨rfl, rfl, folded, .nil⟩
    case arrays_size => rfl
    case arrays => exact fun _ => .empty
    case tuples_size => rfl
    case tuples => exact fun _ => .empty

open Optimize.Example in
/-- Both machines come to the end of the program, though neither the program nor the function in
the heap is the same. -/
theorem optimised_program_behaves_alike_declared :
    Interchangeable .right (declared sum) (declared (Walk.expr (foldRules .right) sum).value) ∧
    ∃ f f', Eval.Ends ⟨.right, 4096⟩ caller (declared sum) .done f ∧
      Eval.Ends ⟨.right, 4096⟩ (rounds .right Pass.all 16 caller).2
        (declared (Walk.expr (foldRules .right) sum).value) .done f' ∧
      f.output = f'.output ∧ Interchangeable .right f f' := by
  have start := declared_interchangeable .right
  have ends : Eval.Ends ⟨.right, 4096⟩ caller (declared sum) .done
      (Eval.program ⟨.right, 4096⟩ 16 caller (declared sum)).2 := ⟨nofun, 16, rfl⟩
  obtain ⟨f', ends', output, -, same⟩ :=
    (optimised_program_behaves_alike ⟨.right, 4096⟩ Pass.all 16 caller start .done).1 _ ends
  exact ⟨start, _, f', ends, ends', output, same⟩

end CellScript.Optimize
