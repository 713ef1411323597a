import CellScript.Proofs.Alike.Heap
import CellScript.Proofs.Checking.Bound

/-! The checks are sound. Whatever part of a checked program is evaluated meets what is asked of a
step at the place where the part stands, by induction on the bound of the evaluation. -/
namespace CellScript

open Run Check

theorem forall_of_forall₂ {α β : Type} {P : β → Prop} {xs : List α} {ys : List β}
    (each : List.Forall₂ (fun _ y => P y) xs ys) : ∀ y ∈ ys, P y := by
  induction each with
  | nil => exact fun _ member => absurd member List.not_mem_nil
  | cons here _ ih => exact List.forall_mem_cons.mpr ⟨here, ih⟩

/-- Elements of different names make a tuple. -/
theorem Check.repeated?_of_clean {α : Type} {c : Context} {seen before : List Text}
    {es : List Element} {fields : List (Text × α)} (clean : Clean (elements c seen es))
    (named : List.Forall₂ (fun e f => ∃ span value, e = .mk span f.1 value) es fields)
    (fewer : before ⊆ seen) : Tuple.repeated? before fields = none := by
  induction named generalizing seen before with
  | nil => rfl
  | @cons e f es fields first _ ih =>
    obtain ⟨name, a⟩ := f
    obtain ⟨span, value, rfl⟩ := first
    obtain ⟨here, rest⟩ := clean_append.mp clean
    have fresh := (clean_reportIf rfl).mp (clean_append.mp here).2
    unfold Tuple.repeated?
    split
    · exact ih rest fun other member => List.mem_cons_of_mem _ (fewer member)
    · split
      next unnamed again =>
        have known := fewer (List.contains_iff_mem.mp again)
        simp only [Bool.and_eq_false_iff, Bool.not_eq_false', List.contains_eq_mem,
          decide_eq_false_iff_not] at fresh
        rcases fresh with empty | unknown
        · exact absurd empty unnamed
        · exact absurd known unknown
      next =>
        refine ih rest fun other member => ?_
        rcases List.mem_cons.mp member with rfl | member
        · exact List.mem_cons_self
        · exact List.mem_cons_of_mem _ (fewer member)

/-- The traced step builds a function as a literal does, and nothing else happens. -/
structure Builds (k : Knowledge) (f : Bindings → Closure) (t : Traced CellRef) : Prop where
  admits : ∀ m, ∀ moment ∈ t.moments m, k.Admits moment
  run : ∀ m, t.run m = newCell (.func (f m.scopes.snapshot)) m ∨
    ∃ stop, t.run m = .error stop m ∧ stop.Fits false

namespace Builds

open Traced

variable {k : Knowledge} {f : Bindings → Closure} {t : Traced CellRef}

theorem exhausted : Builds k f (Traced.quiet (throw .exhausted)) where
  admits := fun _ _ member => absurd member List.not_mem_nil
  run := fun _ => .inr ⟨_, rfl, trivial⟩

theorem during (builds : Builds k f t) (active : List Activation) (node : TreeNode)
    (other : node.isReference = false) : Builds k f (during active node t) where
  admits := fun m => Meets.admits_during (builds.admits m) fun span name ts m same => by
    cases same
    exact Bool.noConfusion other
  run := builds.run

theorem andReturn (builds : Builds k f t) : Builds k f (t >>= fun d => pure d) where
  admits := by
    intro m moment member
    change moment ∈ t.moments m ++ following (t.run m) fun _ _ => [] at member
    rcases List.mem_append.mp member with member | member
    · exact builds.admits m moment member
    · cases ended : t.run m <;> rw [ended] at member <;> exact absurd member List.not_mem_nil
  run := by
    intro m
    have same : (t >>= fun d => pure d : Traced CellRef).run = t.run := bind_pure t.run
    rw [same]
    exact builds.run m

/-- A function literal that is the whole expression, however deep the evaluation may go. -/
theorem lone {l : Literal} {params : List Text} {code : Code}
    (isFunction : l.function? = some (params, code)) (cfg : Settings) (n : Nat)
    (active : List Activation) (span span' span'' : Span) (ops : List (Word BinaryOp)) :
    Builds k (fun captured => ⟨l.span, params, code, captured⟩)
      (Trace.expr cfg n active (.mk span [.mk span' none (.literal span'' l) none] ops)) := by
  have literal (n : Nat) : Builds k (fun captured => ⟨l.span, params, code, captured⟩)
      (Trace.literal cfg n active l) := by
    cases n with
    | zero => exact exhausted
    | succ n =>
      have made : Builds k (fun captured => ⟨l.span, params, code, captured⟩)
          (Traced.quiet (Eval.closure l.span params code)) :=
        ⟨fun _ _ member => absurd member List.not_mem_nil, fun _ => .inl rfl⟩
      cases l with
      | function | lambda =>
        cases isFunction
        exact made.during active _ rfl
      | _ => cases isFunction
  have primary (n : Nat) : Builds k (fun captured => ⟨l.span, params, code, captured⟩)
      (Trace.primary cfg n active (.literal span'' l)) := by
    cases n with
    | zero => exact exhausted
    | succ n => exact (literal n).during active _ rfl
  have operand (n : Nat) : Builds k (fun captured => ⟨l.span, params, code, captured⟩)
      (Trace.operand cfg n active (.mk span' none (.literal span'' l) none)) := by
    cases n with
    | zero => exact exhausted
    | succ n => exact (primary n).andReturn.during active _ rfl
  cases n with
  | zero => exact exhausted
  | succ n =>
    simp only [Trace.expr]
    refine Builds.during ?_ _ _ rfl
    split
    · refine ⟨fun m moment member => ?_, fun _ => .inr ⟨_, rfl, trivial⟩⟩
      rw [List.mem_singleton.mp member]
      refine .of_raised ?_
      rintro node e m' ⟨⟩
      exact .inl (.inl rfl)
    · exact operand n

/-- A function that is declared knows itself in the end. -/
theorem declare {loop : Bool} {names : List Text} {name : Text} (builds : Builds k f t)
    (trusted : ∀ m d, k.Ready names m → k.Trusts
      { f m.scopes.snapshot with captured := (f m.scopes.snapshot).captured.set name d }) :
    Meets k loop names (name :: names) (fun _ => True) (do
      let d ← t
      Traced.quiet (bindName name d)
      Traced.quiet (Eval.knowItself name d)) := by
  have step (m : Machine) : (do
      let d ← t
      Traced.quiet (bindName name d)
      Traced.quiet (Eval.knowItself name d) : Traced Unit).run m =
    EStateM.bind t.run (fun d => do bindName name d; Eval.knowItself name d) m := rfl
  have known (m : Machine) :
      (do bindName name ⟨m.heap.cells.size⟩; Eval.knowItself name ⟨m.heap.cells.size⟩ : Run Unit)
        { m with heap := (m.heap.newCell (.func (f m.scopes.snapshot))).2 } =
      .ok () { m with
        scopes := m.scopes.bind name ⟨m.heap.cells.size⟩
        heap := (m.heap.newCell (.func (f m.scopes.snapshot))).2.put ⟨m.heap.cells.size⟩
          (.func { f m.scopes.snapshot with
            captured := (f m.scopes.snapshot).captured.set name ⟨m.heap.cells.size⟩ }) } :=
    Eval.knowItself_of_func (Heap.get_newCell_self m.heap _) name
  constructor
  case admits =>
    intro m ready moment member
    change moment ∈ t.moments m ++ following (t.run m) _ at member
    rcases List.mem_append.mp member with member | member
    · exact builds.admits m moment member
    · cases ended : t.run m <;> rw [ended] at member <;> exact absurd member List.not_mem_nil
  case lands =>
    intro m ready
    rw [step]
    unfold EStateM.bind
    rcases builds.run m with made | ⟨stop, stopped, fits⟩
    · rw [made]
      change Lands k loop names (name :: names) (fun _ => True)
        ((do bindName name ⟨m.heap.cells.size⟩; Eval.knowItself name ⟨m.heap.cells.size⟩ : Run Unit)
          { m with heap := (m.heap.newCell (.func (f m.scopes.snapshot))).2 })
      rw [known m]
      refine .ok trivial ((ready.bind name ⟨m.heap.cells.size⟩).withHeap rfl ?_)
      have value : k.TrustsValue (.func { f m.scopes.snapshot with
          captured := (f m.scopes.snapshot).captured.set name ⟨m.heap.cells.size⟩ }) := by
        rintro g ⟨⟩
        exact trusted m _ ready
      have fresh := ready.heap.newCell value
      rw [← Heap.put_newCell m.heap (.func (f m.scopes.snapshot))] at fresh
      exact fresh
    · rw [stopped]
      exact .error (fits.mono fun impossible => absurd impossible Bool.false_ne_true) ready

end Builds

namespace Trace

/-- Under a bound of `n`, every part of a known program is evaluated soundly. -/
structure Sound (k : Knowledge) (cfg : Settings) (n : Nat) : Prop where
  expr {o home c active e} (origin : k.known o) (homed : Homed k o home active)
    (visit : Visits o home c [] (.expr e)) : Safe k false (c.held active) (expr cfg n active e)
  operand {o home c active x} (origin : k.known o) (homed : Homed k o home active)
    (visit : Visits o home c [] (.operand x)) : Safe k false (c.held active) (operand cfg n active x)
  primary {o home c active p} (origin : k.known o) (homed : Homed k o home active)
    (visit : Visits o home c [] (.primary p)) : Safe k false (c.held active) (primary cfg n active p)
  tail {o home c active t} (origin : k.known o) (homed : Homed k o home active)
    (visit : Visits o home c [] (.tail t)) (d : CellRef) :
    Safe k false (c.held active) (tail cfg n active d t)
  call {names active f} (trusted : k.Trusts f) (arguments : List CellRef) (site : Span) :
    Safe k false names (call cfg n active f arguments site)
  literal {o home c active l} (origin : k.known o) (homed : Homed k o home active)
    (visit : Visits o home c [] (.literal l)) : Safe k false (c.held active) (literal cfg n active l)
  condition {o home c active e} (origin : k.known o) (homed : Homed k o home active)
    (visit : Visits o home c [] (.expr e)) (node : TreeNode) (construct : String) :
    Safe k false (c.held active) (condition cfg n active node construct e)
  bound {o home c active e} (origin : k.known o) (homed : Homed k o home active)
    (visit : Visits o home c [] (.expr e)) (node : TreeNode) (which : String) :
    Safe k false (c.held active) (bound cfg n active node which e)
  statement {o home c active s} (origin : k.known o) (homed : Homed k o home active)
    (visit : Visits o home c [] (.statement s)) :
    Meets k c.inLoop (c.held active) ((c.after s).held active) (fun _ => True) (statement cfg n active s)
  block {o home c active b} (origin : k.known o) (homed : Homed k o home active)
    (visit : Visits o home c [] (.block b)) : Safe k c.inLoop (c.held active) (block cfg n active b)

namespace Sound

variable {k : Knowledge} {cfg : Settings} {n : Nat} {o : Origin} {home : Option Literal} {c : Context}
  {active : List Activation}

theorem names_after (c : Context) (s : Statement) : c.names ⊆ (c.after s).names := by
  cases s with
  | declare span name e =>
    obtain ⟨globals, hoisted, scopes, inLoop, inFunction⟩ := c
    cases scopes with
    | nil => exact List.Subset.refl _
    | cons names outer => exact List.subset_cons_self _ _
  | _ => exact List.Subset.refl _

theorem held_after (c : Context) (s : Statement) (active : List Activation) :
    c.held active ⊆ (c.after s).held active := by
  intro name member
  rcases List.mem_append.mp member with known | stored
  · exact List.mem_append_left _ (names_after c s known)
  · exact List.mem_append_right _ stored

theorem inLoop_after (c : Context) (s : Statement) : (c.after s).inLoop = c.inLoop := by
  cases s with
  | declare span name e =>
    obtain ⟨globals, hoisted, scopes, inLoop, inFunction⟩ := c
    cases scopes <;> rfl
  | _ => rfl

theorem sequence (sound : Sound k cfg n) (origin : k.known o) (homed : Homed k o home active)
    {ss : List Statement} (visit : Visits o home c [] (.statements ss)) :
    Safe k c.inLoop (c.held active) (sequence active (Trace.statement cfg n active) ss) := by
  refine Meets.during ?_ active (.statements ss) rfl
  induction ss generalizing c with
  | nil => exact .pure trivial
  | cons s ss ih =>
    have rest := ih visit.rest
    rw [inLoop_after] at rest
    refine .bind (sound.statement origin homed visit.first) (held_after c s active) fun _ _ => ?_
    exact rest.mono id (held_after c s active) fun _ _ => trivial

theorem exprs (sound : Sound k cfg n) (origin : k.known o) (homed : Homed k o home active)
    (es : List Expr) (visits : ∀ e ∈ es, Visits o home c [] (.expr e)) :
    Safe k false (c.held active) (es.mapM' (Trace.expr cfg n active)) := by
  refine (Meets.mapM (R := fun _ _ => True) es fun e member => ?_).mono id (List.Subset.refl _)
    fun _ _ => trivial
  exact sound.expr origin homed (visits e member)

theorem expr_succ (sound : Sound k cfg n) (origin : k.known o) (homed : Homed k o home active) {e : Expr}
    (visit : Visits o home c [] (.expr e)) :
    Safe k false (c.held active) (Trace.expr cfg (n + 1) active e) := by
  match e with
  | .missing => exact .during (.fail rfl _ _ _) _ _ rfl
  | .mk span [] ops => exact .during (.fail rfl _ _ _) _ _ rfl
  | .mk span (x :: xs) ops =>
    simp only [Trace.expr]
    refine Meets.during ?_ _ _ rfl
    split
    · exact .fail rfl _ _ _
    split
    · exact sound.operand origin homed (visit.operand List.mem_cons_self)
    refine .andThen (sound.operand origin homed (visit.operand List.mem_cons_self)) fun d _ => ?_
    refine .andThen (.contents d) fun first trusted => ?_
    refine .andThen (.mapM (R := fun _ v => k.TrustsValue v) xs fun x' member => ?_) fun rest each => ?_
    · have visited := visit.operand (List.mem_cons_of_mem _ member)
      exact .andThen (sound.operand origin homed visited) fun d _ => .contents d
    have others : ∀ v ∈ rest, k.TrustsValue v := forall_of_forall₂ each
    refine .andThen (.own (.onHeap (fun h => ?_) span) (Run.Inward.onHeap _ _).still _ _ fun _ => id) fun v trusted => ?_
    · exact Operators.reduce_kept (fun _ => Knowledge.trustsValue_of_ne) _ _ _ _ h trusted others
    · exact .newCell trusted

theorem operand_succ (sound : Sound k cfg n) (origin : k.known o) (homed : Homed k o home active)
    {x : Operand} (visit : Visits o home c [] (.operand x)) :
    Safe k false (c.held active) (Trace.operand cfg (n + 1) active x) := by
  obtain ⟨span, op, p, test⟩ := x
  simp only [Trace.operand]
  refine .during (.andThen (sound.primary origin homed visit.primary) fun d _ => ?_) _ _ rfl
  split
  · exact .pure trivial
  · refine .andThen (.contents d) fun v trusted => ?_
    have kept := Operators.operand_kept (fun _ => Knowledge.trustsValue_of_ne) op test v trusted
    refine .andThen (.usual (.locate kept span) (Run.Inward.locate _ _).still _ _) fun w trusted => ?_
    exact .newCell trusted

theorem primary_succ (sound : Sound k cfg n) (origin : k.known o) (homed : Homed k o home active)
    {p : Primary} (visit : Visits o home c [] (.primary p)) :
    Safe k false (c.held active) (Trace.primary cfg (n + 1) active p) := by
  cases p with
  | read span kind =>
    refine .during (.andThen (.usual (.readValue (fun _ => id) span kind) (.readValue _ _) _ _)
      fun v trusted => ?_) _ _ rfl
    exact .newCell trusted
  | literal span l => exact .during (sound.literal origin homed visit.literal) _ _ rfl
  | paren span inner => exact .during (sound.expr origin homed visit.paren) _ _ rfl
  | ref span name tails =>
    simp only [Trace.primary]
    refine .reference (.andThen (.lookup origin homed visit) fun d _ => ?_) origin homed visit
    exact .foldlM tails d fun t member d => sound.tail origin homed (visit.tail member) d

theorem tail_succ (sound : Sound k cfg n) (origin : k.known o) (homed : Homed k o home active) {t : Tail}
    (visit : Visits o home c [] (.tail t)) (d : CellRef) :
    Safe k false (c.held active) (Trace.tail cfg (n + 1) active d t) := by
  simp only [Trace.tail]
  refine .during (.andThen (.contents d) fun v trusted => ?_) _ _ rfl
  cases t with
  | index span position => exact .usual (.itemAt (fun _ => id) _ _ _) (Run.Inward.itemAt _ _ _).still _ _
  | field span name => exact .usual (.itemNamed (fun _ => id) _ _ _) (Run.Inward.itemNamed _ _ _).still _ _
  | subscript span key =>
    refine .andThen (sound.expr origin homed visit.subscript) fun key _ => ?_
    exact .usual (.itemUnder (fun _ => id) _ _ _ _) (Run.Inward.itemUnder _ _ _ _).still _ _
  | call span arguments =>
    cases v with
    | func f =>
      have inside := sound.exprs origin homed arguments fun e => visit.argument
      exact .andThen inside fun cells _ => sound.call (trusted f rfl) cells span
    | _ => exact .fail rfl _ _ _

theorem literal_succ (sound : Sound k cfg n) (origin : k.known o) (homed : Homed k o home active)
    {l : Literal} (visit : Visits o home c [] (.literal l)) :
    Safe k false (c.held active) (Trace.literal cfg (n + 1) active l) := by
  simp only [Trace.literal]
  refine Meets.during ?_ _ _ rfl
  cases l with
  | missing => exact .fail rfl _ _ _
  | integer | real | boolean | string | empty => exact .newPlainCell fun _ => Value.noConfusion
  | array span es =>
    refine .andThen (sound.exprs origin homed es fun e => visit.item) fun cells _ => ?_
    refine .andThen (.quiet (.newArray cells) (Run.Inward.newArray cells).still) fun v trusted => ?_
    exact .newCell trusted
  | tuple span es =>
    refine .andThen (.mapM (R := fun e f => ∃ span value, e = .mk span f.1 value) es
      fun e member => ?_) fun fields named => ?_
    · obtain ⟨span', name, value⟩ := e
      refine .andThen (sound.expr origin homed (visit.element member)) fun d _ => ?_
      exact .pure ⟨span', value, rfl⟩
    · have distinct := repeated?_of_clean (visit.clean (k.clean o origin)) named (List.Subset.refl _)
      refine .andThen (.usual (.newTuple distinct span) (Run.Inward.newTuple _ _).still _ _) fun v trusted => ?_
      exact .newCell trusted
  | function span params b => exact .closure origin visit fun _ => rfl
  | lambda span params result => exact .closure origin visit fun _ => rfl

theorem condition_succ (sound : Sound k cfg n) (origin : k.known o) (homed : Homed k o home active)
    {e : Expr} (visit : Visits o home c [] (.expr e)) (node : TreeNode) (construct : String) :
    Safe k false (c.held active) (Trace.condition cfg (n + 1) active node construct e) := by
  simp only [Trace.condition]
  refine .andThen (sound.expr origin homed visit) fun d _ => ?_
  refine .andThen (.contents d) fun v _ => ?_
  cases v with
  | bool b => exact .usual (.pure trivial) (.pure b) _ _
  | _ => exact .fail rfl _ _ _

theorem bound_succ (sound : Sound k cfg n) (origin : k.known o) (homed : Homed k o home active)
    {e : Expr} (visit : Visits o home c [] (.expr e)) (node : TreeNode) (which : String) :
    Safe k false (c.held active) (Trace.bound cfg (n + 1) active node which e) := by
  simp only [Trace.bound]
  refine .andThen (sound.expr origin homed visit) fun d _ => ?_
  refine .andThen (.contents d) fun v _ => ?_
  cases v with
  | int i => exact .usual (.pure trivial) (.pure i) _ _
  | _ => exact .fail rfl _ _ _

theorem call_succ (sound : Sound k cfg n) {names : List Text} {f : Closure} (trusted : k.Trusts f)
    (arguments : List CellRef) (site : Span) :
    Safe k false names (Trace.call cfg (n + 1) active f arguments site) := by
  obtain ⟨o, home, c, self, origin, visit, captured⟩ := trusted
  have code := visit.code f.function?_literal
  have homed : Homed k o (some f.literal) (⟨f, site⟩ :: active) :=
    .inside fun tracks name seed => captured tracks name (.inr seed)
  simp only [Trace.call]
  refine Meets.during ?_ _ _ rfl
  split
  next => exact .fail rfl _ _ _
  next count =>
    have count : arguments.length = f.arity := Decidable.not_not.mp count
    refine .andThen (.quiet .get .get) fun m _ => ?_
    split
    · exact .fail rfl _ _ _
    · have grows := ((discipline cfg n).code (⟨f, site⟩ :: active) f.code).scopes
      refine .asCall (.inFrame (?_ : Safe k false ((c.enterFunction self f.params).held
        (⟨f, site⟩ :: active)) _) grows _ _ _ _ fun m ready => ?_) _ _ _
      · cases running : f.code with
        | expression e =>
          rw [running] at code
          exact .andThen (sound.expr origin homed code) fun d _ => .pure trivial
        | statements b =>
          rw [running] at code
          have left := sound.sequence origin homed code
          have outside : (c.enterFunction self f.params).inLoop = false := by
            unfold Context.enterFunction
            split <;> rfl
          rw [outside] at left
          exact .andThen left fun _ _ => .pure trivial
      · exact ready.openCall rfl (fun tracks name outer => captured tracks name (.inl outer)) count

/-- A name is declared once its initial value is there. A function that is declared may use its own
name. -/
theorem declare_succ (sound : Sound k cfg n) (origin : k.known o) (homed : Homed k o home active)
    {span : Span} {name : Text} {initial : Expr}
    (visit : Visits o home c [] (.statement (.declare span name initial))) :
    Meets k c.inLoop (c.held active) (name :: c.held active) (fun _ => True)
      (Trace.statement cfg (n + 1) active (.declare span name initial)) := by
  simp only [Trace.statement]
  refine Meets.during ?_ _ _ rfl
  split
  · refine .andThen (.newPlainCell fun _ => Value.noConfusion) fun d _ => ?_
    exact .bindName name d
  cases isLiteral : Eval.isFunctionLiteral initial with
  | false =>
    refine .andThen (sound.expr origin homed (visit.initial isLiteral)).anywhere fun d _ => ?_
    exact .bind (.bindName name d) (List.subset_cons_self _ _) fun _ _ => .pure trivial
  | true =>
    obtain ⟨span', span'', span₃, l, ops, params, code, rfl, isFunction⟩ :=
      Eval.exists_of_isFunctionLiteral isLiteral
    have written (captured : Bindings) :
        Closure.literal ⟨l.span, params, code, captured⟩ = l := by
      cases l with
      | function | lambda =>
        cases isFunction
        rfl
      | _ => cases isFunction
    refine (Builds.lone isFunction cfg n active span' span'' span₃ ops).declare fun m d ready => ?_
    have declared := visit.declared
    rw [← written (m.scopes.snapshot.set name d)] at declared
    have around : k.Ready c.names m := ready.mono (List.subset_append_left _ _)
    refine around.trusts_snapshot origin declared fun other bound => ?_
    exact (Bindings.isSome_get?_set name d).mpr (bound.symm.imp And.right id)

/-- The rounds of a counting loop. The counter is bound anew in each. -/
theorem rounds (sound : Sound k cfg n) (origin : k.known o) (homed : Homed k o home active) {span : Span}
    {counter : Text} {low high : Expr} {b : Body}
    (visit : Visits o home c [] (.statement (.forLoop span counter low high b))) (count : Nat)
    (v : Int64) (loop : Bool) :
    Safe k loop (c.held active) (Traced.forCount (fun v => do
      let d ← Traced.quiet (newCell (.int v))
      Traced.quiet (bindName counter d)
      Trace.block cfg n active b) count v) := by
  refine .forCount (fun v => ?_) count v
  refine .andThen (.newPlainCell fun _ => Value.noConfusion) fun d _ => ?_
  refine .bind (.bindName counter d) (List.subset_cons_self _ _) fun _ _ => ?_
  exact (sound.block origin homed visit.forBody).mono id
    (List.subset_cons_self counter (c.held active)) fun _ _ => trivial

theorem statement_succ (sound : Sound k cfg n) (origin : k.known o) (homed : Homed k o home active)
    {s : Statement} (visit : Visits o home c [] (.statement s)) :
    Meets k c.inLoop (c.held active) ((c.after s).held active) (fun _ => True)
      (Trace.statement cfg (n + 1) active s) := by
  cases s with
  | declare span name initial =>
    refine (sound.declare_succ origin homed visit).mono id (fun other known => ?_) fun _ _ => trivial
    rcases List.mem_append.mp known with named | stored
    · exact List.mem_cons.mpr ((Context.mem_names_declare named).imp id (List.mem_append_left _))
    · exact List.mem_cons_of_mem _ (List.mem_append_right _ stored)
  | assign span target op value =>
    simp only [Trace.statement]
    refine .during (.andThen (sound.primary origin homed visit.target).anywhere fun d _ => ?_) _ _ rfl
    cases op with
    | none => exact .pure trivial
    | some op =>
      dsimp only
      split
      · exact .pure trivial
      · refine .andThen (sound.expr origin homed visit.value).anywhere fun e _ => ?_
        refine .andThen (.contents e) fun v trusted => ?_
        refine .own (.assignTo trusted span d op) (Run.Inward.assignTo _ _ _ _).still _ _ fun fault joining => ?_
        exact joining.mono fun adds => congrArg some adds
  | branch span e yes no =>
    simp only [Trace.statement]
    have holds := sound.condition origin homed visit.condition
      (.statement (.branch span e yes no)) "if"
    refine .during (.andThen holds.anywhere fun holds _ => ?_) _ _ rfl
    split
    · exact sound.block origin homed visit.yes
    · exact sound.block origin homed visit.no
  | forLoop span counter low high b =>
    simp only [Trace.statement]
    refine .during (.andThen (sound.bound origin homed visit.low _ _).anywhere fun low _ => ?_) _ _ rfl
    refine .andThen (sound.bound origin homed visit.high _ _).anywhere fun high _ => ?_
    let count := (high.toInt - low.toInt + 1).toNat
    have inside := sound.rounds origin homed visit count low c.inLoop
    have grows := ((discipline cfg n).rounds active counter b count low).scopes
    refine .inFrame inside grows _ _ _ _ fun m ready => ?_
    exact ready.openPlain rfl _
  | whileLoop span e b =>
    simp only [Trace.statement]
    refine Meets.during ?_ _ _ rfl
    exact .whileHolds (sound.condition origin homed visit.whileCondition _ _).anywhere
      (sound.block origin homed visit.whileBody) n
  | print span arguments =>
    simp only [Trace.statement]
    refine .during (.forM arguments fun e member => ?_) _ _ rfl
    refine .andThen (sound.expr origin homed (visit.printed member)).anywhere fun d _ => ?_
    refine .andThen (.contents d) fun v _ => ?_
    exact .usual (.print (A := fun fault => fault.unchecked = true) rfl span) (.print _ _) _ _
  | ret span value =>
    simp only [Trace.statement]
    refine Meets.during ?_ _ _ rfl
    split
    · refine .andThen (.newPlainCell fun _ => Value.noConfusion) fun d _ => ?_
      exact .leave trivial
    · refine .andThen (sound.expr origin homed visit.returned).anywhere fun d _ => ?_
      exact .leave trivial
  | brk span =>
    have fits : (Stop.brk span).Fits c.inLoop := visit.inLoop_of_brk (k.clean o origin)
    exact .during (.leave fits) _ _ rfl
  | cont span =>
    have fits : (Stop.cont span).Fits c.inLoop := visit.inLoop_of_cont (k.clean o origin)
    exact .during (.leave fits) _ _ rfl
  | block b => exact .during (sound.block origin homed visit.block) _ _ rfl

theorem block_succ (sound : Sound k cfg n) (origin : k.known o) (homed : Homed k o home active) {b : Body}
    (visit : Visits o home c [] (.block b)) :
    Safe k c.inLoop (c.held active) (Trace.block cfg (n + 1) active b) := by
  cases b with
  | missing => exact .during (.pure trivial) _ _ rfl
  | mk span ss cleared =>
    have inside := sound.sequence origin homed visit.inside
    have grows := ((discipline cfg n).sequence active ss).scopes
    refine .during (.inFrame inside grows _ _ _ _ fun m ready => ?_) _ _ rfl
    exact ready.openPlain rfl _

end Sound

/-- Every part of a checked program is evaluated soundly. -/
theorem sound (k : Knowledge) (cfg : Settings) (n : Nat) : Sound k cfg n := by
  induction n with
  | zero => constructor <;> intros <;> exact .exhausted
  | succ n sound =>
    exact {
      expr := fun origin homed visit => sound.expr_succ origin homed visit
      operand := fun origin homed visit => sound.operand_succ origin homed visit
      primary := fun origin homed visit => sound.primary_succ origin homed visit
      tail := fun origin homed visit => sound.tail_succ origin homed visit
      call := sound.call_succ
      literal := fun origin homed visit => sound.literal_succ origin homed visit
      condition := fun origin homed visit => sound.condition_succ origin homed visit
      bound := fun origin homed visit => sound.bound_succ origin homed visit
      statement := fun origin homed visit => sound.statement_succ origin homed visit
      block := fun origin homed visit => sound.block_succ origin homed visit }

end Trace

end CellScript
