import CellScript.Proofs.Inward
import CellScript.Proofs.Reachable
import CellScript.Proofs.Trace.Accounts

/-! Scopes during evaluation. Whatever is evaluated and however it ends, the open frames are the same
afterwards, only the innermost one may have got bindings, and each frame that is closed is the one
that was opened for it. The number of open calls is the number of frames that calls opened. -/
namespace CellScript

open Run

namespace Scopes

/-- All frames, innermost first; the last one is the global frame. -/
def frames (s : Scopes) : List Frame := s.inner ++ [⟨none, s.globals⟩]

/-- The number of frames that calls opened. -/
def callFrames (s : Scopes) : Nat := s.inner.countP fun f => f.owner.any (·.kind == .function)

/-- The same frames. The innermost one may bind more names, or other cells. -/
inductive Grown : Scopes → Scopes → Prop where
  | globals {b d : Bindings} (more : ∀ name, (b.get? name).isSome → (d.get? name).isSome) :
    Grown ⟨b, []⟩ ⟨d, []⟩
  | frame {globals : Bindings} {owner : Option Owner} {b d : Bindings} {fs : List Frame}
      (more : ∀ name, (b.get? name).isSome → (d.get? name).isSome) :
    Grown ⟨globals, ⟨owner, b⟩ :: fs⟩ ⟨globals, ⟨owner, d⟩ :: fs⟩

namespace Grown

variable {s t u : Scopes}

theorem refl (s : Scopes) : Grown s s := by
  obtain ⟨globals, inner⟩ := s
  cases inner with
  | nil => exact .globals fun _ bound => bound
  | cons f fs => exact .frame fun _ bound => bound

theorem trans (first : Grown s t) (second : Grown t u) : Grown s u := by
  cases first with
  | globals more =>
    cases second with
    | globals more' => exact .globals fun name bound => more' name (more name bound)
  | frame more =>
    cases second with
    | frame more' => exact .frame fun name bound => more' name (more name bound)

theorem bind (s : Scopes) (name : Text) (c : CellRef) : Grown s (s.bind name c) := by
  have more (b : Bindings) (other : Text) (bound : (b.get? other).isSome) :
      ((b.set name c).get? other).isSome := by
    rw [Bindings.get?_set]
    split
    · rfl
    · exact bound
  obtain ⟨globals, inner⟩ := s
  cases inner with
  | nil => exact .globals (more globals)
  | cons f fs => exact .frame (more f.bindings)

theorem owners (grown : Grown s t) : t.frames.map (·.owner) = s.frames.map (·.owner) := by
  cases grown <;> rfl

theorem below (grown : Grown s t) : t.frames.tail = s.frames.tail := by
  cases grown <;> rfl

theorem callFrames_eq (grown : Grown s t) : t.callFrames = s.callFrames := by
  cases grown with
  | globals _ => rfl
  | frame _ => simp only [callFrames, List.countP_cons]

theorem inner_nil (grown : Grown s t) (none : s.inner = []) : t.inner = [] := by
  cases grown with
  | globals _ => rfl
  | frame _ => cases none

/-- A frame on top of others is what closing takes away. -/
theorem close_top {owner : Owner} {bindings : Bindings}
    (grown : Grown (s.openWith (some owner) bindings) t) :
    t.close (some owner) = .ok s ∧ t.inner.length = s.inner.length + 1 := by
  obtain ⟨globals, inner⟩ := s
  cases grown with
  | frame _ => simp [close, below?]

end Grown

end Scopes

/-- As many calls are open as frames of calls, and no more than allowed. -/
def Machine.Balanced (cfg : Settings) (m : Machine) : Prop :=
  m.calls = m.scopes.callFrames ∧ m.calls ≤ cfg.maxCalls

/-- Whether evaluating the node may bind names in the innermost frame. -/
def TreeNode.binds : TreeNode → Bool
  | .statement _ | .statements _ => true
  | .expr _ | .operand _ | .primary _ | .tail _ | .literal _ | .call .. | .block _ => false

/-- What the discipline of scopes demands of an event. -/
def Event.Disciplined (cfg : Settings) : Event → Prop
  | .began _ m => m.Balanced cfg
  | .ended node before after =>
    after.scopes.frames.map (·.owner) = before.scopes.frames.map (·.owner) ∧
      after.scopes.frames.tail = before.scopes.frames.tail ∧
      (node.binds = false → after.scopes.frames = before.scopes.frames) ∧
      after.calls = before.calls ∧ after.Balanced cfg
  | .closing owner outside inside =>
    inside.close (some owner) = .ok outside ∧ inside.inner.length = outside.inner.length + 1
  | .raised .. => True

/-- A step that leaves scopes and calls alone. -/
def Run.Still {α : Type} (x : Run α) : Prop :=
  ∀ m, (reached (x m)).scopes = m.scopes ∧ (reached (x m)).calls = m.calls

namespace Run.Still

variable {α β : Type}

theorem pure (a : α) : Still (Pure.pure a : Run α) := fun _ => ⟨rfl, rfl⟩

theorem throw (stop : Stop) : Still (throw stop : Run α) := fun _ => ⟨rfl, rfl⟩

theorem get : Still (get : Run Machine) := fun _ => ⟨rfl, rfl⟩

theorem bind {x : Run α} {f : α → Run β} (first : Still x) (rest : ∀ a, Still (f a)) :
    Still (x >>= f) := by
  intro m
  change (reached (EStateM.bind x f m)).scopes = _ ∧ (reached (EStateM.bind x f m)).calls = _
  unfold EStateM.bind
  have here := first m
  generalize x m = r at here
  cases r with
  | error stop m' => exact here
  | ok a m' =>
    have there := rest a m'
    exact ⟨there.1.trans here.1, there.2.trans here.2⟩

theorem print (span : Span) (v : Value) : Still (print span v) := by
  intro m
  unfold Run.print
  dsimp only
  split <;> exact ⟨rfl, rfl⟩

theorem readWord (span : Span) (what : Text) : Still (readWord span what) := by
  intro m
  unfold Run.readWord
  dsimp only
  split
  · exact ⟨rfl, rfl⟩
  · split
    · exact ⟨rfl, rfl⟩
    · split <;> exact ⟨rfl, rfl⟩

theorem readValue (span : Span) (kind : Word ReadKind) : Still (readValue span kind) := by
  cases kind with
  | other w _ => exact throw _
  | known k =>
    refine bind (readWord _ _) fun w => ?_
    cases k with
    | int => cases Integer.read w <;> first | exact pure _ | exact throw _
    | real => cases Real.read? w <;> first | exact pure _ | exact throw _
    | string => exact pure _

end Run.Still

theorem Run.Inward.still {α : Type} {x : Run α} (inward : x.Inward) : x.Still := by
  intro m
  obtain ⟨r, h, ends⟩ := inward m.scopes m.heap
  have ends : x m = settle m h r := ends m.calls m.output m.input
  rw [ends]
  cases r <;> exact ⟨rfl, rfl⟩

/-! ### Orderly steps -/

/-- A step that changes scopes as `K` allows, gives back every call it opens and passes only
disciplined events. -/
structure Orderly {α : Type} (cfg : Settings) (K : Scopes → Scopes → Prop) (t : Traced α) : Prop where
  scopes : ∀ m, K m.scopes (reached (t.run m)).scopes
  calls : ∀ m, (reached (t.run m)).calls = m.calls
  moments : ∀ m, m.Balanced cfg → ∀ moment ∈ t.moments m, moment.event.Disciplined cfg

/-- What may become of scopes: at most the innermost frame grows. -/
structure Keeping (K : Scopes → Scopes → Prop) : Prop where
  refl : ∀ s, K s s
  trans : ∀ {s t u}, K s t → K t u → K s u
  grown : ∀ {s t}, K s t → s.Grown t

theorem keeping_eq : Keeping (@Eq Scopes) where
  refl := fun _ => rfl
  trans := Eq.trans
  grown := by
    rintro s t rfl
    exact .refl s

theorem keeping_grown : Keeping Scopes.Grown where
  refl := .refl
  trans := .trans
  grown := id

theorem Machine.Balanced.of_grown {cfg : Settings} {m m' : Machine} (balanced : m.Balanced cfg)
    (grown : m.scopes.Grown m'.scopes) (calls : m'.calls = m.calls) : m'.Balanced cfg := by
  unfold Balanced
  rw [calls, grown.callFrames_eq]
  exact balanced

namespace Orderly

open Traced

variable {α β : Type} {cfg : Settings} {K : Scopes → Scopes → Prop}

theorem balanced {t : Traced α} (orderly : Orderly cfg K t) (keeping : Keeping K) {m : Machine}
    (balanced : m.Balanced cfg) : (reached (t.run m)).Balanced cfg :=
  balanced.of_grown (keeping.grown (orderly.scopes m)) (orderly.calls m)

theorem weaken {t : Traced α} (orderly : Orderly cfg Eq t) (keeping : Keeping K) :
    Orderly cfg K t where
  scopes := fun m => by
    rw [← orderly.scopes m]
    exact keeping.refl _
  calls := orderly.calls
  moments := orderly.moments

theorem quiet_of_still {x : Run α} (still : x.Still) : Orderly cfg Eq (Traced.quiet x) where
  scopes := fun m => (still m).1.symm
  calls := fun m => (still m).2
  moments := fun _ _ _ member => absurd member List.not_mem_nil

theorem own_of_still (active : List Activation) (node : TreeNode) {x : Run α} (still : x.Still) :
    Orderly cfg Eq (Traced.own active node x) where
  scopes := fun m => (still m).1.symm
  calls := fun m => (still m).2
  moments := by
    intro m _ moment member
    simp only [Traced.own] at member
    cases ended : x m with
    | ok a m' => simp [ended, faults] at member
    | error stop m' =>
      cases stop with
      | fault e =>
        simp only [ended, faults, List.mem_singleton] at member
        rw [member]
        trivial
      | brk _ | cont _ | ret _ | exhausted => simp [ended, faults] at member

theorem quiet {x : Run α} (inward : x.Inward) : Orderly cfg Eq (Traced.quiet x) :=
  quiet_of_still inward.still

theorem own (active : List Activation) (node : TreeNode) {x : Run α} (inward : x.Inward) :
    Orderly cfg Eq (Traced.own active node x) := own_of_still active node inward.still

theorem pure (a : α) : Orderly cfg Eq (Pure.pure a) := quiet (.pure a)

theorem bind (keeping : Keeping K) {t : Traced α} {g : α → Traced β} (first : Orderly cfg K t)
    (rest : ∀ a, Orderly cfg K (g a)) : Orderly cfg K (t >>= g) := by
  have step (m : Machine) : (t >>= g).run m = EStateM.bind t.run (fun a => (g a).run) m := rfl
  constructor
  case scopes =>
    intro m
    rw [step]
    unfold EStateM.bind
    have here := first.scopes m
    generalize t.run m = r at here
    cases r with
    | error stop m' => exact here
    | ok a m' => exact keeping.trans here ((rest a).scopes m')
  case calls =>
    intro m
    rw [step]
    unfold EStateM.bind
    have here := first.calls m
    generalize t.run m = r at here
    cases r with
    | error stop m' => exact here
    | ok a m' => exact ((rest a).calls m').trans here
  case moments =>
    intro m balanced moment member
    have after := first.balanced keeping balanced
    change moment ∈ t.moments m ++ following (t.run m) fun a m => (g a).moments m at member
    rcases List.mem_append.mp member with member | member
    · exact first.moments m balanced moment member
    · generalize t.run m = r at after member
      cases r with
      | error stop m' => simp [following] at member
      | ok a m' => exact (rest a).moments m' after moment member

theorem mapM (keeping : Keeping K) {g : α → Traced β} (each : ∀ a, Orderly cfg K (g a))
    (xs : List α) : Orderly cfg K (xs.mapM' g) := by
  induction xs with
  | nil => exact (pure []).weaken keeping
  | cons a xs ih =>
    exact bind keeping (each a) fun b => bind keeping ih fun bs => (pure (b :: bs)).weaken keeping

theorem forM (keeping : Keeping K) {g : α → Traced Unit} (each : ∀ a, Orderly cfg K (g a))
    (xs : List α) : Orderly cfg K (xs.forM g) := by
  induction xs with
  | nil => exact (pure ()).weaken keeping
  | cons a xs ih => exact bind keeping (each a) fun _ => ih

theorem foldlM (keeping : Keeping K) {g : β → α → Traced β} (each : ∀ b a, Orderly cfg K (g b a))
    (xs : List α) (b : β) : Orderly cfg K (xs.foldlM g b) := by
  induction xs generalizing b with
  | nil => exact (pure b).weaken keeping
  | cons a xs ih => exact bind keeping (each b a) ih

theorem during (keeping : Keeping K) {t : Traced α} (inside : Orderly cfg K t)
    (active : List Activation) {node : TreeNode}
    (fits : node.binds = false → ∀ s t, K s t → t = s) : Orderly cfg K (during active node t) where
  scopes := inside.scopes
  calls := inside.calls
  moments := by
    intro m balanced moment member
    have kept := inside.scopes m
    have grown := keeping.grown kept
    simp only [Traced.during, List.cons_append, List.mem_cons, List.mem_append,
      List.not_mem_nil, or_false] at member
    rcases member with rfl | member | rfl
    · exact balanced
    · exact inside.moments m balanced moment member
    · refine ⟨grown.owners, grown.below, fun silent => ?_, inside.calls m,
        inside.balanced keeping balanced⟩
      rw [fits silent _ _ kept]

theorem scopes_inFrame {x : Run α} (grows : ∀ m : Machine, m.scopes.Grown (reached (x m)).scopes)
    (owner : Owner) (bindings : Bindings) (m : Machine) :
    (reached (Run.inFrame owner bindings x m)).scopes = m.scopes ∧
      (reached (Run.inFrame owner bindings x m)).calls =
        (reached (x { m with scopes := m.scopes.openWith (some owner) bindings })).calls := by
  have grown := grows { m with scopes := m.scopes.openWith (some owner) bindings }
  unfold Run.inFrame
  generalize x { m with scopes := m.scopes.openWith (some owner) bindings } = r at grown
  have closed := grown.close_top.1
  cases r with
  | ok a m' =>
    simp only [reached] at closed ⊢
    rw [closed]
    exact ⟨rfl, rfl⟩
  | error stop m' =>
    simp only [reached] at closed ⊢
    rw [closed]
    exact ⟨rfl, rfl⟩

/-- A frame is closed as it was opened. The step inside passes disciplined events if they are so
from where it starts. -/
theorem moments_inFrame {t : Traced α} (inside : Orderly cfg Scopes.Grown t)
    (active : List Activation) (node : TreeNode) (owner : Owner) (bindings : Bindings) (m : Machine)
    (balanced : Machine.Balanced cfg { m with scopes := m.scopes.openWith (some owner) bindings }) :
    ∀ moment ∈ (inFrame active node owner bindings t).moments m, moment.event.Disciplined cfg := by
  intro moment member
  have grown := inside.scopes { m with scopes := m.scopes.openWith (some owner) bindings }
  have fine := inside.moments _ balanced
  simp only [Traced.inFrame, List.mem_append, List.mem_singleton] at member
  generalize t.run { m with scopes := m.scopes.openWith (some owner) bindings } = r at grown member
  have closed := grown.close_top
  rcases member with (member | rfl) | member
  · exact fine moment member
  · exact closed
  · cases r with
    | error stop m' => simp [following] at member
    | ok a m' =>
      simp only [reached] at closed
      simp only [following, closed.1] at member
      simp [locate, faults, Pure.pure, EStateM.pure] at member

theorem inFrame (keeping : Keeping K) {t : Traced α} (inside : Orderly cfg Scopes.Grown t)
    (active : List Activation) (node : TreeNode) {owner : Owner} (plain : owner.kind ≠ .function)
    (bindings : Bindings) : Orderly cfg K (inFrame active node owner bindings t) where
  scopes := fun m => by
    change K m.scopes (reached (Run.inFrame owner bindings t.run m)).scopes
    rw [(scopes_inFrame inside.scopes owner bindings m).1]
    exact keeping.refl _
  calls := fun m => (scopes_inFrame inside.scopes owner bindings m).2.trans (inside.calls _)
  moments := by
    intro m balanced
    refine moments_inFrame inside active node owner bindings m ⟨balanced.1.trans ?_, balanced.2⟩
    simp [Scopes.callFrames, Scopes.openWith, plain]

theorem reached_leave (site : Span) (r : EStateM.Result Stop Machine (Option CellRef)) :
    (reached (Eval.leave site r)).scopes = (reached r).scopes ∧
      (reached (Eval.leave site r)).calls = (reached r).calls - 1 := by
  cases r with
  | ok result m => cases result <;> exact ⟨rfl, rfl⟩
  | error stop m => cases stop <;> exact ⟨rfl, rfl⟩

/-- A call has one call and one frame of a call more, and gives both back. -/
theorem asCall {t : Traced (Option CellRef)} (inside : Orderly cfg Scopes.Grown t)
    (active : List Activation) (node : TreeNode) (site : Span) (owner : Owner)
    (function : owner.kind = .function) (bindings : Bindings) (m : Machine)
    (room : m.calls < cfg.maxCalls) :
    let call := asCall active node site (Traced.inFrame active node owner bindings t)
    (reached (call.run m)).scopes = m.scopes ∧ (reached (call.run m)).calls = m.calls ∧
      (m.Balanced cfg → ∀ moment ∈ call.moments m, moment.event.Disciplined cfg) := by
  intro call
  have framed := scopes_inFrame inside.scopes owner bindings { m with calls := m.calls + 1 }
  have calls := inside.calls
    { m with calls := m.calls + 1, scopes := m.scopes.openWith (some owner) bindings }
  have run : call.run m = Eval.leave site
      (Run.inFrame owner bindings t.run { m with calls := m.calls + 1 }) :=
    Eval.asCall_apply site _ m
  have left := reached_leave site
    (Run.inFrame owner bindings t.run { m with calls := m.calls + 1 })
  rw [← run] at left
  refine ⟨left.1.trans framed.1, ?_, fun balanced moment member => ?_⟩
  · rw [left.2, framed.2]
    exact congrArg (· - 1) calls
  have opened : Machine.Balanced cfg
      { m with calls := m.calls + 1, scopes := m.scopes.openWith (some owner) bindings } := by
    refine ⟨?_, room⟩
    simp [Scopes.callFrames, Scopes.openWith, function, balanced.1]
  have fine := moments_inFrame inside active node owner bindings
    { m with calls := m.calls + 1 } opened
  rcases List.mem_append.mp member with member | member
  · exact fine moment member
  · generalize (Traced.inFrame active node owner bindings t).run _ = r at member
    split at member
    · rw [List.mem_singleton.mp member]
      trivial
    · rw [List.mem_singleton.mp member]
      trivial
    · exact absurd member List.not_mem_nil

theorem round (keeping : Keeping K) {t next : Traced Unit} (body : Orderly cfg K t)
    (after : Orderly cfg K next) : Orderly cfg K (round t next) := by
  have step (m : Machine) : (Traced.round t next).run m = Run.round t.run next.run m := rfl
  constructor
  case scopes =>
    intro m
    rw [step]
    unfold Run.round
    have here := body.scopes m
    generalize t.run m = r at here
    cases r with
    | ok _ m' => exact keeping.trans here (after.scopes m')
    | error stop m' =>
      cases stop with
      | cont _ => exact keeping.trans here (after.scopes m')
      | brk _ | ret _ | fault _ | exhausted => exact here
  case calls =>
    intro m
    rw [step]
    unfold Run.round
    have here := body.calls m
    generalize t.run m = r at here
    cases r with
    | ok _ m' => exact (after.calls m').trans here
    | error stop m' =>
      cases stop with
      | cont _ => exact (after.calls m').trans here
      | brk _ | ret _ | fault _ | exhausted => exact here
  case moments =>
    intro m balanced moment member
    have still := body.balanced keeping balanced
    rcases List.mem_append.mp member with member | member
    · exact body.moments m balanced moment member
    · generalize t.run m = r at still member
      split at member
      · exact after.moments _ still moment member
      · exact after.moments _ still moment member
      · exact absurd member List.not_mem_nil

theorem forCount (keeping : Keeping K) {g : Int64 → Traced Unit} (each : ∀ v, Orderly cfg K (g v))
    (count : Nat) (v : Int64) : Orderly cfg K (forCount g count v) := by
  induction count generalizing v with
  | zero => exact (pure ()).weaken keeping
  | succ count ih => exact round keeping (each v) (ih (v + 1))

theorem whileHolds (keeping : Keeping K) {c : Traced Bool} {t : Traced Unit}
    (condition : Orderly cfg K c) (body : Orderly cfg K t) (rounds : Nat) :
    Orderly cfg K (whileHolds c t rounds) := by
  induction rounds with
  | zero => exact (quiet_of_still (.throw _)).weaken keeping
  | succ rounds ih =>
    refine bind keeping condition fun holds => ?_
    split
    · exact round keeping body ih
    · exact (pure ()).weaken keeping

/-- What a step does may depend on the machine it starts from. -/
theorem of_get {g : Machine → Traced α}
    (each : ∀ m, K m.scopes (reached ((g m).run m)).scopes ∧
      (reached ((g m).run m)).calls = m.calls ∧
      (m.Balanced cfg → ∀ moment ∈ (g m).moments m, moment.event.Disciplined cfg)) :
    Orderly cfg K (Traced.quiet get >>= g) where
  scopes := fun m => (each m).1
  calls := fun m => (each m).2.1
  moments := fun m balanced moment member => (each m).2.2 balanced moment member

theorem bindName {name : Text} (binds : ∀ s c, K s (s.bind name c)) (c : CellRef) :
    Orderly cfg K (Traced.quiet (Run.bindName name c)) where
  scopes := fun m => binds m.scopes c
  calls := fun _ => rfl
  moments := fun _ _ _ member => absurd member List.not_mem_nil

end Orderly

/-! ### The evaluation is orderly -/

namespace Trace

/-- Under a bound of `n`, every evaluation is orderly. Only statements bind names. -/
structure Discipline (cfg : Settings) (n : Nat) : Prop where
  expr (active : List Activation) (e : Expr) : Orderly cfg Eq (expr cfg n active e)
  operand (active : List Activation) (x : Operand) : Orderly cfg Eq (operand cfg n active x)
  primary (active : List Activation) (p : Primary) : Orderly cfg Eq (primary cfg n active p)
  tail (active : List Activation) (c : CellRef) (t : Tail) : Orderly cfg Eq (tail cfg n active c t)
  call (active : List Activation) (f : Closure) (arguments : List CellRef) (site : Span) :
    Orderly cfg Eq (call cfg n active f arguments site)
  literal (active : List Activation) (l : Literal) : Orderly cfg Eq (literal cfg n active l)
  condition (active : List Activation) (node : TreeNode) (construct : String) (e : Expr) :
    Orderly cfg Eq (condition cfg n active node construct e)
  bound (active : List Activation) (node : TreeNode) (which : String) (e : Expr) :
    Orderly cfg Eq (bound cfg n active node which e)
  statement (active : List Activation) (s : Statement) :
    Orderly cfg Scopes.Grown (statement cfg n active s)
  block (active : List Activation) (b : Body) : Orderly cfg Eq (block cfg n active b)

namespace Discipline

variable {cfg : Settings} {n : Nat}

theorem sequence (disc : Discipline cfg n) (active : List Activation) (ss : List Statement) :
    Orderly cfg Scopes.Grown (sequence active (Trace.statement cfg n active) ss) :=
  .during keeping_grown (.forM keeping_grown (disc.statement active) ss) active
    fun silent => Bool.noConfusion silent

/-- The evaluation of a node that binds nothing. -/
theorem node {α : Type} {t : Traced α} (inside : Orderly cfg Eq t) (active : List Activation)
    (node : TreeNode) : Orderly cfg Eq (Traced.during active node t) :=
  .during keeping_eq inside active fun _ _ _ same => same.symm

/-- The code of a call. -/
theorem code (disc : Discipline cfg n) (active : List Activation) (code : Code) :
    Orderly cfg Scopes.Grown (match code with
      | .expression e => do return some (← Trace.expr cfg n active e)
      | .statements b => do
        Trace.sequence active (Trace.statement cfg n active) b.statements
        return none) := by
  cases code with
  | expression e =>
    exact (Orderly.bind keeping_eq (disc.expr _ e) fun c => .pure (some c)).weaken keeping_grown
  | statements b =>
    exact .bind keeping_grown (disc.sequence _ b.statements) fun _ =>
      (Orderly.pure none).weaken keeping_grown

/-- The rounds of a counting loop. -/
theorem rounds (disc : Discipline cfg n) (active : List Activation) (counter : Text) (b : Body)
    (count : Nat) (v : Int64) :
    Orderly cfg Scopes.Grown (Traced.forCount (fun v => do
      let c ← Traced.quiet (newCell (.int v))
      Traced.quiet (bindName counter c)
      Trace.block cfg n active b) count v) := by
  refine .forCount keeping_grown (fun v => ?_) count v
  refine .bind keeping_grown ((Orderly.quiet (.newCell _)).weaken keeping_grown) fun c => ?_
  refine .bind keeping_grown (.bindName (.bind · counter) c) fun _ => ?_
  exact (disc.block active b).weaken keeping_grown

theorem expr_succ (disc : Discipline cfg n) (active : List Activation) (e : Expr) :
    Orderly cfg Eq (Trace.expr cfg (n + 1) active e) := by
  match e with
  | .missing => exact node (.own _ _ (.fail _ _)) _ _
  | .mk span [] ops => exact node (.own _ _ (.fail _ _)) _ _
  | .mk span (x :: xs) ops =>
    simp only [Trace.expr]
    apply node
    split
    · exact .own _ _ (.fail _ _)
    split
    · exact disc.operand active x
    refine .bind keeping_eq (disc.operand active x) fun c => ?_
    refine .bind keeping_eq (.quiet (.contents c)) fun first => ?_
    refine .bind keeping_eq (.mapM keeping_eq (fun x => ?_) xs) fun rest => ?_
    · exact .bind keeping_eq (disc.operand active x) fun c => .quiet (.contents c)
    · exact .bind keeping_eq (.own _ _ (.onHeap _ _)) fun v => .quiet (.newCell v)

theorem operand_succ (disc : Discipline cfg n) (active : List Activation) (x : Operand) :
    Orderly cfg Eq (Trace.operand cfg (n + 1) active x) := by
  obtain ⟨span, op, p, test⟩ := x
  simp only [Trace.operand]
  refine node (.bind keeping_eq (disc.primary active p) fun c => ?_) _ _
  split
  · exact .pure c
  · refine .bind keeping_eq (.quiet (.contents c)) fun v => ?_
    exact .bind keeping_eq (.own _ _ (.locate _ _)) fun v => .quiet (.newCell v)

theorem primary_succ (disc : Discipline cfg n) (active : List Activation) (p : Primary) :
    Orderly cfg Eq (Trace.primary cfg (n + 1) active p) := by
  cases p with
  | read span kind =>
    refine node (.bind keeping_eq (.own_of_still _ _ (.readValue _ _)) fun v => ?_) _ _
    exact .quiet (.newCell v)
  | literal span l => exact node (disc.literal active l) _ _
  | paren span inner => exact node (disc.expr active inner) _ _
  | ref span name tails =>
    simp only [Trace.primary]
    refine node (.bind keeping_eq (.own _ _ (.lookup _ _)) fun c => ?_) _ _
    exact .foldlM keeping_eq (disc.tail active) tails c

theorem tail_succ (disc : Discipline cfg n) (active : List Activation) (c : CellRef) (t : Tail) :
    Orderly cfg Eq (Trace.tail cfg (n + 1) active c t) := by
  simp only [Trace.tail]
  refine node (.bind keeping_eq (.quiet (.contents c)) fun v => ?_) _ _
  cases t with
  | index span position => exact .own _ _ (.itemAt _ _ _)
  | field span name => exact .own _ _ (.itemNamed _ _ _)
  | subscript span key =>
    exact .bind keeping_eq (disc.expr active key) fun k => .own _ _ (.itemUnder _ _ _ _)
  | call span arguments =>
    cases v with
    | func f =>
      refine .bind keeping_eq (.mapM keeping_eq (disc.expr active) arguments) fun cells => ?_
      exact disc.call active f cells span
    | _ => exact .own _ _ (.fail _ _)

theorem call_succ (disc : Discipline cfg n) (active : List Activation) (f : Closure)
    (arguments : List CellRef) (site : Span) :
    Orderly cfg Eq (Trace.call cfg (n + 1) active f arguments site) := by
  simp only [Trace.call]
  apply node
  split
  · exact .own _ _ (.fail _ _)
  refine .of_get fun m => ?_
  by_cases full : cfg.maxCalls ≤ m.calls
  · rw [if_pos full]
    have failed : Orderly cfg Eq (Traced.own active (.call f site)
        (fail site (.tooManyCalls cfg.maxCalls) : Run CellRef)) := .own _ _ (.fail _ _)
    exact ⟨failed.scopes m, failed.calls m, failed.moments m⟩
  · rw [if_neg full]
    have inside := disc.code (⟨f, site⟩ :: active) f.code
    have called := inside.asCall active (.call f site) site ⟨.function, f.span, []⟩ rfl
      (f.captured.override (f.params.zip arguments)) m (Nat.lt_of_not_le full)
    exact ⟨called.1.symm, called.2⟩

theorem literal_succ (disc : Discipline cfg n) (active : List Activation) (l : Literal) :
    Orderly cfg Eq (Trace.literal cfg (n + 1) active l) := by
  simp only [Trace.literal]
  apply node
  cases l with
  | missing => exact .own _ _ (.fail _ _)
  | integer | real | boolean | string | empty => exact .quiet (.newCell _)
  | array span es =>
    refine .bind keeping_eq (.mapM keeping_eq (disc.expr active) es) fun cells => ?_
    exact .bind keeping_eq (.quiet (.newArray cells)) fun v => .quiet (.newCell v)
  | tuple span es =>
    refine .bind keeping_eq (.mapM keeping_eq ?_ es) fun fields => ?_
    · rintro ⟨_, name, value⟩
      exact .bind keeping_eq (disc.expr active value) fun c => .pure (name, c)
    · exact .bind keeping_eq (.own _ _ (.newTuple _ _)) fun v => .quiet (.newCell v)
  | function span params b => exact .quiet (.closure _ _ _)
  | lambda span params result => exact .quiet (.closure _ _ _)

theorem condition_succ (disc : Discipline cfg n) (active : List Activation) (node : TreeNode)
    (construct : String) (e : Expr) :
    Orderly cfg Eq (Trace.condition cfg (n + 1) active node construct e) := by
  simp only [Trace.condition]
  refine .bind keeping_eq (disc.expr active e) fun c => ?_
  refine .bind keeping_eq (.quiet (.contents c)) fun v => .own _ _ ?_
  cases v with
  | bool b => exact .pure b
  | _ => exact .fail _ _

theorem bound_succ (disc : Discipline cfg n) (active : List Activation) (node : TreeNode)
    (which : String) (e : Expr) :
    Orderly cfg Eq (Trace.bound cfg (n + 1) active node which e) := by
  simp only [Trace.bound]
  refine .bind keeping_eq (disc.expr active e) fun c => ?_
  refine .bind keeping_eq (.quiet (.contents c)) fun v => .own _ _ ?_
  cases v with
  | int k => exact .pure k
  | _ => exact .fail _ _

/-- A declaration may bind its name, and nothing else. -/
theorem declare_succ (disc : Discipline cfg n) (active : List Activation) {K : Scopes → Scopes → Prop}
    (keeping : Keeping K) {name : Text} (binds : ∀ s c, K s (s.bind name c)) (span : Span)
    (initial : Expr) :
    Orderly cfg K (Trace.statement cfg (n + 1) active (.declare span name initial)) := by
  simp only [Trace.statement]
  refine .during keeping ?_ active fun silent => Bool.noConfusion silent
  split
  · refine .bind keeping ((Orderly.quiet (.newCell _)).weaken keeping) fun c => ?_
    exact .bindName binds c
  · refine .bind keeping ((disc.expr active initial).weaken keeping) fun c => ?_
    refine .bind keeping (.bindName binds c) fun _ => .weaken ?_ keeping
    split
    · exact .quiet (.knowItself name c)
    · exact .pure ()

/-- A statement that is no declaration leaves the scopes as they are. -/
theorem statement_still (disc : Discipline cfg n) (active : List Activation) {s : Statement}
    (other : ∀ span name initial, s ≠ .declare span name initial) :
    Orderly cfg Eq (Trace.statement cfg (n + 1) active s) := by
  simp only [Trace.statement]
  apply node
  cases s with
  | declare span name initial => exact absurd rfl (other span name initial)
  | assign span target op value =>
    refine .bind keeping_eq (disc.primary active target) fun c => ?_
    cases op with
    | none => exact .pure ()
    | some op =>
      dsimp only
      split
      · exact .pure ()
      · refine .bind keeping_eq (disc.expr active value) fun d => ?_
        exact .bind keeping_eq (.quiet (.contents d)) fun v => .own _ _ (.assignTo _ _ _ _)
  | branch span e yes no =>
    refine .bind keeping_eq (disc.condition active _ "if" e) fun holds => ?_
    split
    · exact disc.block active yes
    · exact disc.block active no
  | forLoop span counter low high b =>
    refine .bind keeping_eq (disc.bound active _ "lower" low) fun low => ?_
    refine .bind keeping_eq (disc.bound active _ "upper" high) fun high => ?_
    exact .inFrame keeping_eq (disc.rounds active counter b _ _) _ _
      (fun same => OwnerKind.noConfusion same) _
  | whileLoop span e b =>
    exact .whileHolds keeping_eq (disc.condition active _ "while" e) (disc.block active b) n
  | print span arguments =>
    refine .forM keeping_eq (fun e => ?_) arguments
    refine .bind keeping_eq (disc.expr active e) fun c => ?_
    exact .bind keeping_eq (.quiet (.contents c)) fun v => .own_of_still _ _ (.print _ _)
  | ret span value =>
    dsimp only
    split
    · exact .bind keeping_eq (.quiet (.newCell _)) fun c => .quiet_of_still (.throw _)
    · exact .bind keeping_eq (disc.expr active value) fun c => .quiet_of_still (.throw _)
  | brk span => exact .quiet_of_still (.throw _)
  | cont span => exact .quiet_of_still (.throw _)
  | block b => exact disc.block active b

theorem statement_succ (disc : Discipline cfg n) (active : List Activation) (s : Statement) :
    Orderly cfg Scopes.Grown (Trace.statement cfg (n + 1) active s) := by
  cases s with
  | declare span name initial =>
    exact disc.declare_succ active keeping_grown (.bind · name) span initial
  | _ =>
    refine (disc.statement_still active ?_).weaken keeping_grown
    intro span name initial same
    exact Statement.noConfusion same

theorem block_succ (disc : Discipline cfg n) (active : List Activation) (b : Body) :
    Orderly cfg Eq (Trace.block cfg (n + 1) active b) := by
  cases b with
  | missing => exact node (.pure ()) _ _
  | mk span ss cleared =>
    refine node (.inFrame keeping_eq (disc.sequence active ss) _ _ ?_ _) _ _
    exact fun same => OwnerKind.noConfusion same

end Discipline

theorem discipline (cfg : Settings) (n : Nat) : Discipline cfg n := by
  induction n with
  | zero =>
    have out {α : Type} : Orderly cfg Eq (Traced.quiet (throw .exhausted) : Traced α) :=
      .quiet_of_still (.throw _)
    constructor <;> intros <;> first | exact out | exact out.weaken keeping_grown
  | succ n disc =>
    exact {
      expr := disc.expr_succ
      operand := disc.operand_succ
      primary := disc.primary_succ
      tail := disc.tail_succ
      call := disc.call_succ
      literal := disc.literal_succ
      condition := disc.condition_succ
      bound := disc.bound_succ
      statement := disc.statement_succ
      block := disc.block_succ }

end Trace

/-! ### Programs -/

namespace Eval

variable {cfg : Settings} {m m' : Machine}

theorem statements_keep (cfg : Settings) (n : Nat) (ss : List Statement) (m : Machine) :
    m.scopes.Grown (reached (ss.forM (statement cfg n) m)).scopes ∧
      (reached (ss.forM (statement cfg n) m)).calls = m.calls := by
  have orderly := (Trace.discipline cfg n).sequence [] ss
  have scopes := orderly.scopes m
  have calls := orderly.calls m
  rw [((Trace.recorded cfg n).sequence [] ss).run_eq] at scopes calls
  exact ⟨scopes, calls⟩

theorem expr_keeps (cfg : Settings) (n : Nat) (e : Expr) (m : Machine) :
    m.scopes = (reached (expr cfg n e m)).scopes ∧
      (reached (expr cfg n e m)).calls = m.calls := by
  have orderly := (Trace.discipline cfg n).expr [] e
  have scopes := orderly.scopes m
  have calls := orderly.calls m
  rw [((Trace.recorded cfg n).expr [] e).run_eq] at scopes calls
  exact ⟨scopes, calls⟩

theorem conclude_at_rest {r : EStateM.Result Stop Machine Unit}
    (rest : (reached r).scopes.inner = [] ∧ (reached r).calls = 0) :
    (conclude r).2.scopes.inner = [] ∧ (conclude r).2.calls = 0 := by
  cases r with
  | ok _ m => exact rest
  | error stop m =>
    cases stop with
    | ret c => exact rest
    | brk _ | cont _ | fault _ | exhausted => exact ⟨rfl, rfl⟩

end Eval

/-- Between programs no frame but the global one and no call is open. -/
theorem Reachable.at_rest {cfg : Settings} {m : Machine} (reached : Reachable cfg m) :
    m.scopes.inner = [] ∧ m.calls = 0 := by
  induction reached with
  | initial => exact ⟨rfl, rfl⟩
  | connect _ input output ih => exact ih
  | @program m m' p o _ ends ih =>
    obtain ⟨-, fuel, ran⟩ := ends
    obtain ⟨grown, calls⟩ := Eval.statements_keep cfg fuel p.body.statements m
    have rest := Eval.conclude_at_rest ⟨grown.inner_nil ih.1, calls.trans ih.2⟩
    rw [← Eval.program_eq_conclude, ran] at rest
    exact rest
  | @expression m m' e fuel r _ ran _ ih =>
    obtain ⟨scopes, calls⟩ := Eval.expr_keeps cfg fuel e m
    rw [scopes, ← calls] at ih
    rw [← Eval.expression_reached, ran] at ih
    exact ih

theorem Reachable.balanced {cfg : Settings} {m : Machine} (reached : Reachable cfg m) :
    m.Balanced cfg := by
  obtain ⟨inner, calls⟩ := reached.at_rest
  refine ⟨?_, ?_⟩
  · rw [calls, Scopes.callFrames, inner, List.countP_nil]
  · rw [calls]
    exact Nat.zero_le _

/-- Every moment of every run of a program keeps the discipline of scopes: frames are given back
as they were, whatever the evaluation ended with, each frame that is closed is the one that was
opened, and open calls are counted right and within the limit. -/
theorem scopes_stay_disciplined {cfg : Settings} {m : Machine} (reached : Reachable cfg m)
    (p : Program) (fuel : Nat) :
    Eval.program cfg fuel p m = Eval.conclude ((Trace.program cfg fuel p).run m) ∧
      ∀ moment ∈ (Trace.program cfg fuel p).moments m, moment.event.Disciplined cfg := by
  constructor
  · rw [(Trace.program_accounts cfg fuel p).run_eq]
    exact Eval.program_eq_conclude cfg fuel p m
  · exact ((Trace.discipline cfg fuel).sequence [] p.body.statements).moments m reached.balanced

namespace Example

def lone (p : Primary) : Expr := .mk .zero [.mk .zero none p none] []

/-- The parameter of the function below and a number, joined by an operator. -/
def withParam (op : BinaryOp) (k : Int64) : Expr :=
  .mk .zero [.mk .zero none (.ref .zero [110] []) none,
    .mk .zero none (.literal .zero (.integer .zero k)) none] [.known op]

/-- Declares a function that calls itself down to zero, and calls it with two. -/
def countdown : Program :=
  ⟨.zero, .mk .zero [
    .declare .zero [102] (lone (.literal .zero (.function .zero [[110]] (.mk .zero [
      .branch .zero (withParam .less 1) (.mk .zero [.ret .zero .missing] false) .missing,
      .ret .zero (lone (.ref .zero [102] [.call .zero [withParam .subtract 1]]))] false)))),
    .declare .zero [120] (lone (.ref .zero [102] [.call .zero
      [lone (.literal .zero (.integer .zero 2))]]))] false⟩

def fails : Eval.Outcome → Bool
  | .failed _ => true
  | _ => false

def succeeds : Eval.Outcome → Bool
  | .done => true
  | _ => false

theorem done_of_succeeds {o : Eval.Outcome} (succeeded : succeeds o = true) : o = .done := by
  cases o with
  | done => rfl
  | failed _ | outputRefused | exhausted => cases succeeded

theorem ends_of_fails {cfg : Settings} {fuel : Nat} {p : Program} {m : Machine}
    (failed : fails (Eval.program cfg fuel p m).1 = true) :
    Eval.Ends cfg p m (Eval.program cfg fuel p m).1 (Eval.program cfg fuel p m).2 := by
  refine ⟨fun out => ?_, fuel, rfl⟩
  rw [out] at failed
  cases failed

/-- The machine after a run in which there was room for two calls only. -/
def stuck : Machine := (Eval.program ⟨.right, 2⟩ 60 countdown .initial).2

theorem countdown_fails : fails (Eval.program ⟨.right, 2⟩ 60 countdown .initial).1 = true := by
  decide +kernel

theorem countdown_fails_again : fails (Eval.program ⟨.right, 2⟩ 60 countdown stuck).1 = true := by
  decide +kernel

end Example

open Example in
/-- The discipline holds in a run that fails deep inside calls, after one that did so before. -/
theorem scopes_stay_disciplined_countdown :
    Reachable ⟨.right, 2⟩ stuck ∧
      fails (Eval.program ⟨.right, 2⟩ 60 countdown stuck).1 = true ∧
      ∀ moment ∈ (Trace.program ⟨.right, 2⟩ 60 countdown).moments stuck,
        moment.event.Disciplined ⟨.right, 2⟩ := by
  have reached : Reachable ⟨.right, 2⟩ stuck :=
    Reachable.initial.program (ends_of_fails countdown_fails)
  exact ⟨reached, countdown_fails_again, (scopes_stay_disciplined reached countdown 60).2⟩

end CellScript
