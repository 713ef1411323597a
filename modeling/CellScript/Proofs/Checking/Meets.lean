import CellScript.Proofs.Checking.Joining
import Mathlib.Data.List.Forall2

/-! What a step has to do in a checked program. From a machine where the declared names are bound it
leads to such a machine, it leaves a loop only where there is one, and no fault comes up that the
checks rule out. One rule for each way to put steps together. -/
namespace CellScript

open Run

/-- Nodes that join tuples themselves: a sum, or an assignment that adds. -/
def TreeNode.Joins : TreeNode → Prop
  | .expr (.mk _ _ ops) => .known .add ∈ ops
  | .statement (.assign _ _ op _) => op = some (.known .add)
  | _ => False

def TreeNode.isReference : TreeNode → Bool
  | .primary (.ref ..) => true
  | _ => false

/-- A reference to a name that is not bound globally yet. It stands in the function that was called
last, whose program declares the name at the top level; no scope around the reference declares the
name, and it was not bound before the program. -/
inductive Late (known : Origin → Prop) (name : Text) : Moment → Prop where
  | reference {o : Origin} {c : Check.Context} {f : Closure} {site span : Span} {ts : List Tail}
      {calls : List Activation} {e : RuntimeError} {m : Machine} (origin : known o)
      (visit : Visits o (some f.literal) c [] (.primary (.ref span name ts)))
      (declared : name ∈ o.declared) (fresh : name ∉ o.seeds) (outer : name ∉ c.names)
      (unbound : m.scopes.globals.get? name = none) :
    Late known name ⟨⟨f, site⟩ :: calls, .raised (.primary (.ref span name ts)) e m⟩

/-- The code of the function literal belongs to the call that was opened last, which captured the names
that were bound before its program. Code of no function runs while no call is open. -/
inductive Homed (k : Knowledge) (o : Origin) : (home : Option Literal) → List Activation → Prop where
  | outside : Homed k o none []
  | inside {f : Closure} {site : Span} {calls : List Activation}
      (seeds : k.tracks → ∀ name ∈ o.seeds, (f.captured.get? name).isSome) :
    Homed k o (some f.literal) (⟨f, site⟩ :: calls)

/-- The names on which code can count: those declared around it, and what the function called last
captured. -/
def Check.Context.held (c : Check.Context) (active : List Activation) : List Text :=
  c.names ++ active.head?.elim [] fun a => a.function.captured.map (·.1)

/-- A stop that is in place where a loop can be left or not. -/
def Stop.Fits (loop : Bool) : Stop → Prop
  | .brk _ | .cont _ => loop = true
  | .ret _ | .fault _ | .exhausted => True

theorem Stop.Fits.mono {loop loop' : Bool} {stop : Stop} (fits : stop.Fits loop)
    (more : loop = true → loop' = true) : stop.Fits loop' := by
  cases stop with
  | brk | cont => exact more fits
  | ret | fault | exhausted => trivial

namespace Knowledge

/-- A moment of a checked program: a fault is not one of those that the checks rule out. -/
def Allows (k : Knowledge) (moment : Moment) : Prop :=
  ∀ node e m, moment.event = .raised node e m →
    e.fault.Joining node.Joins ∨
      ∃ name, e.fault = .undefinedVariable name ∧ (k.tracks → Late k.known name moment)

/-- Where a reference is evaluated, its program is known and the names on which the code counts are
bound. -/
def Places (k : Knowledge) (moment : Moment) : Prop :=
  ∀ span name ts m, moment.event = .began (.primary (.ref span name ts)) m →
    ∃ o home c, k.known o ∧ Homed k o home moment.active ∧
      Visits o home c [] (.primary (.ref span name ts)) ∧ k.Ready (c.held moment.active) m

structure Admits (k : Knowledge) (moment : Moment) : Prop where
  allows : k.Allows moment
  places : k.Places moment

variable {k : Knowledge} {names names' : List Text} {m : Machine}

theorem Admits.of_ne {moment : Moment} (raised : ∀ node e m, moment.event ≠ .raised node e m)
    (began : ∀ node m, moment.event ≠ .began node m) : k.Admits moment where
  allows := fun node e m same => absurd same (raised node e m)
  places := fun _ _ _ m same => absurd same (began _ m)

/-- A fault is no reference. -/
theorem Admits.of_raised {active : List Activation} {node : TreeNode} {e : RuntimeError}
    (allows : k.Allows ⟨active, .raised node e m⟩) : k.Admits ⟨active, .raised node e m⟩ where
  allows := allows
  places := fun _ _ _ _ same => Event.noConfusion same

theorem Ready.mono (ready : k.Ready names m) (fewer : names' ⊆ names) : k.Ready names' m :=
  ⟨ready.heap, ready.seeded, fun tracks name member => ready.bound tracks name (fewer member)⟩

theorem Ready.withHeap (ready : k.Ready names m) {m' : Machine} (scopes : m'.scopes = m.scopes)
    (heap : k.TrustsHeap m'.heap) : k.Ready names m' where
  heap := heap
  seeded := by
    rw [scopes]
    exact ready.seeded
  bound := by
    rw [scopes]
    exact ready.bound

end Knowledge

/-- How a step of a checked program ends that started with `names` declared: with a value that has
`V` where `names'` are declared, or with a stop that is in place. -/
inductive Lands {α : Type} (k : Knowledge) (loop : Bool) (names names' : List Text) (V : α → Prop) :
    EStateM.Result Stop Machine α → Prop where
  | ok {a : α} {m : Machine} (value : V a) (ready : k.Ready names' m) :
    Lands k loop names names' V (.ok a m)
  | error {stop : Stop} {m : Machine} (fits : stop.Fits loop) (ready : k.Ready names m) :
    Lands k loop names names' V (.error stop m)

/-- A step of a checked program. -/
structure Meets {α : Type} (k : Knowledge) (loop : Bool) (names names' : List Text) (V : α → Prop)
    (t : Traced α) : Prop where
  admits : ∀ m, k.Ready names m → ∀ moment ∈ t.moments m, k.Admits moment
  lands : ∀ m, k.Ready names m → Lands k loop names names' V (t.run m)

/-- A step that is sound where names are declared, and declares none. -/
abbrev Safe {α : Type} (k : Knowledge) (loop : Bool) (names : List Text) (t : Traced α) : Prop :=
  Meets k loop names names (fun _ => True) t

section

variable {α : Type} {k : Knowledge} {loop loop' : Bool} {names names₁ names' fewer : List Text}
  {V V' : α → Prop} {r : EStateM.Result Stop Machine α}

theorem Lands.mono (lands : Lands k loop names names₁ V r) (more : loop = true → loop' = true)
    (outer : fewer ⊆ names) (inner : names' ⊆ names₁) (value : ∀ a, V a → V' a) :
    Lands k loop' fewer names' V' r := by
  cases lands with
  | ok here ready => exact .ok (value _ here) (ready.mono inner)
  | error fits ready => exact .error (fits.mono more) (ready.mono outer)

theorem Lands.ready_reached (lands : Lands k loop names names V r) : k.Ready names (reached r) := by
  cases lands with
  | ok _ ready => exact ready
  | error _ ready => exact ready

end

namespace Meets

open Traced

variable {α β : Type} {k : Knowledge} {loop : Bool} {names names₁ names' : List Text}
  {V : α → Prop} {W : β → Prop}

theorem moments {t : Traced α} (meets : Meets k loop names names' V t) :
    ∀ m, k.Ready names m → ∀ moment ∈ t.moments m, k.Allows moment :=
  fun m ready moment member => (meets.admits m ready moment member).allows

theorem mono {V' : α → Prop} {loop' : Bool} {t : Traced α} (meets : Meets k loop names names₁ V t)
    (more : loop = true → loop' = true) (inner : names' ⊆ names₁) (value : ∀ a, V a → V' a) :
    Meets k loop' names names' V' t where
  admits := meets.admits
  lands := fun m ready => (meets.lands m ready).mono more (List.Subset.refl _) inner value

/-- A step that cannot leave a loop meets what is asked where one could be left. -/
theorem anywhere {t : Traced α} (meets : Meets k false names names' V t) :
    Meets k loop names names' V t :=
  meets.mono (fun impossible => absurd impossible Bool.false_ne_true) (List.Subset.refl _)
    fun _ value => value

theorem pure {a : α} (value : V a) : Meets k loop names names V (Pure.pure a) where
  admits := fun _ _ _ member => absurd member List.not_mem_nil
  lands := fun _ ready => .ok value ready

theorem leave {stop : Stop} (fits : stop.Fits loop) :
    Meets k loop names names' V (quiet (throw stop)) where
  admits := fun _ _ _ member => absurd member List.not_mem_nil
  lands := fun _ ready => .error fits ready

theorem exhausted : Meets k loop names names' V (quiet (throw .exhausted)) :=
  leave trivial

theorem bind {t : Traced α} {g : α → Traced β} (first : Meets k loop names names₁ V t)
    (more : names ⊆ names₁) (rest : ∀ a, V a → Meets k loop names₁ names' W (g a)) :
    Meets k loop names names' W (t >>= g) := by
  have step (m : Machine) : (t >>= g).run m = EStateM.bind t.run (fun a => (g a).run) m := rfl
  constructor
  case admits =>
    intro m ready moment member
    have here := first.lands m ready
    change moment ∈ t.moments m ++ following (t.run m) fun a m => (g a).moments m at member
    rcases List.mem_append.mp member with member | member
    · exact first.admits m ready moment member
    · generalize t.run m = r at here member
      cases here with
      | ok value ready => exact (rest _ value).admits _ ready moment member
      | error _ _ => exact absurd member List.not_mem_nil
  case lands =>
    intro m ready
    have here := first.lands m ready
    rw [step]
    unfold EStateM.bind
    generalize t.run m = r at here
    cases here with
    | ok value ready =>
      exact ((rest _ value).lands _ ready).mono id more (List.Subset.refl _) fun _ value => value
    | error fits ready => exact .error fits ready

/-- The next step, where no name is declared in between. -/
theorem andThen {t : Traced α} {g : α → Traced β} (first : Meets k loop names names V t)
    (rest : ∀ a, V a → Meets k loop names names' W (g a)) : Meets k loop names names' W (t >>= g) :=
  bind first (List.Subset.refl _) rest

theorem mapM {R : α → β → Prop} {g : α → Traced β} (xs : List α)
    (each : ∀ a ∈ xs, Meets k loop names names (R a) (g a)) :
    Meets k loop names names (List.Forall₂ R xs) (xs.mapM' g) := by
  induction xs with
  | nil => exact pure .nil
  | cons a xs ih =>
    refine andThen (each a List.mem_cons_self) fun b first => ?_
    refine andThen (ih fun a member => each a (List.mem_cons_of_mem _ member)) fun bs rest => ?_
    exact pure (.cons first rest)

theorem forM {g : α → Traced Unit} (xs : List α) (each : ∀ a ∈ xs, Safe k loop names (g a)) :
    Safe k loop names (xs.forM g) := by
  induction xs with
  | nil => exact pure trivial
  | cons a xs ih =>
    refine andThen (each a List.mem_cons_self) fun _ _ => ?_
    exact ih fun a member => each a (List.mem_cons_of_mem _ member)

theorem foldlM {g : β → α → Traced β} (xs : List α) (b : β)
    (each : ∀ a ∈ xs, ∀ b, Safe k loop names (g b a)) : Safe k loop names (xs.foldlM g b) := by
  induction xs generalizing b with
  | nil => exact pure trivial
  | cons a xs ih =>
    refine andThen (each a List.mem_cons_self b) fun b _ => ?_
    exact ih b fun a member => each a (List.mem_cons_of_mem _ member)

theorem admits_during {t : Traced α} {active : List Activation} {node : TreeNode} {m : Machine}
    (inside : ∀ moment ∈ t.moments m, k.Admits moment)
    (begins : k.Places ⟨active, .began node m⟩) :
    ∀ moment ∈ (during active node t).moments m, k.Admits moment := by
  intro moment member
  simp only [Traced.during, List.cons_append, List.mem_cons, List.mem_append, List.not_mem_nil,
    or_false] at member
  rcases member with rfl | member | rfl
  · exact ⟨fun _ _ _ same => Event.noConfusion same, begins⟩
  · exact inside moment member
  · exact .of_ne (fun _ _ _ => Event.noConfusion) fun _ _ => Event.noConfusion

/-- The beginning and the end of an evaluation are no faults, and the node is no reference. -/
theorem during {t : Traced α} (inside : Meets k loop names names' V t) (active : List Activation)
    (node : TreeNode) (other : node.isReference = false) :
    Meets k loop names names' V (during active node t) where
  admits := fun m ready => admits_during (inside.admits m ready) fun span name ts m same => by
    cases same
    exact Bool.noConfusion other
  lands := inside.lands

/-- A reference that is evaluated where the checks come to it. -/
theorem reference {o : Origin} {home : Option Literal} {c : Check.Context}
    {active : List Activation} {span : Span} {name : Text} {ts : List Tail} {t : Traced α}
    (inside : Meets k loop (c.held active) names' V t) (origin : k.known o)
    (homed : Homed k o home active) (visit : Visits o home c [] (.primary (.ref span name ts))) :
    Meets k loop (c.held active) names' V
      (Traced.during active (.primary (.ref span name ts)) t) where
  admits := fun m ready => admits_during (inside.admits m ready) fun span name ts m same => by
    cases same
    exact ⟨o, home, c, origin, homed, visit, ready⟩
  lands := inside.lands

/-- A step of a node whose faults are allowed there. -/
theorem own {A : Fault → Prop} {x : Run α} (harmless : x.Harmless k A V) (still : x.Still)
    (active : List Activation) (node : TreeNode)
    (allowed : ∀ fault, A fault → fault.Joining node.Joins) :
    Meets k loop names names V (own active node x) := by
  constructor
  case admits =>
    intro m ready moment member
    have here := harmless m ready.heap
    simp only [Traced.own] at member
    generalize x m = r at here member
    cases r with
    | ok a m' => exact absurd member List.not_mem_nil
    | error stop m' =>
      obtain ⟨⟨e, rfl, fault⟩, _⟩ := here
      rw [List.mem_singleton.mp member]
      refine .of_raised ?_
      rintro node' e' m₁ ⟨⟩
      exact .inl (allowed _ fault)
  case lands =>
    intro m ready
    have here := harmless m ready.heap
    have same := (still m).1
    change Lands k loop names names V (x m)
    generalize x m = r at here same
    cases r with
    | ok a m' => exact .ok here.1 (ready.withHeap same here.2)
    | error stop m' =>
      obtain ⟨⟨e, rfl, _⟩, heap⟩ := here
      exact .error trivial (ready.withHeap same heap)

theorem quiet {x : Run α} (harmless : x.Harmless k (fun fault => fault.unchecked = true) V)
    (still : x.Still) : Meets k loop names names V (Traced.quiet x) := by
  have told : Meets k loop names names V (Traced.own [] (.statements []) x) :=
    own harmless still [] _ fun _ => .inl
  exact ⟨fun _ _ _ member => absurd member List.not_mem_nil, told.lands⟩

theorem contents (c : CellRef) :
    Meets k loop names names k.TrustsValue (Traced.quiet (contents c)) :=
  quiet (.contents c) (Run.Inward.contents c).still

theorem newCell {v : Value} (trusted : k.TrustsValue v) :
    Safe k loop names (Traced.quiet (newCell v)) :=
  quiet (.newCell trusted) (Run.Inward.newCell v).still

theorem newPlainCell {v : Value} (plain : ∀ f, v ≠ .func f) :
    Safe k loop names (Traced.quiet (Run.newCell v)) :=
  newCell (Knowledge.trustsValue_of_ne plain)

/-- A step of a node that complains about nothing the checks are concerned with. -/
theorem usual {x : Run α} (harmless : x.Harmless k (fun fault => fault.unchecked = true) V)
    (still : x.Still) (active : List Activation) (node : TreeNode) :
    Meets k loop names names V (Traced.own active node x) :=
  own harmless still active node fun _ unchecked => .inl unchecked

theorem fail {fault : Fault} (unchecked : fault.unchecked = true) (span : Span)
    (active : List Activation) (node : TreeNode) :
    Meets k loop names names V (Traced.own active node (fail span fault)) :=
  usual (.fail unchecked span) (Run.Inward.fail span fault).still active node

/-- A frame that a node opens. What is declared inside is gone afterwards. -/
theorem inFrame {t : Traced α} {inner inner' : List Text} (inside : Meets k loop inner inner' V t)
    (grows : ∀ m : Machine, m.scopes.Grown (reached (t.run m)).scopes) (active : List Activation)
    (node : TreeNode) (owner : Owner) (bindings : Bindings)
    (opens : ∀ m, k.Ready names m →
      k.Ready inner { m with scopes := m.scopes.openWith (some owner) bindings }) :
    Meets k loop names names V (inFrame active node owner bindings t) := by
  have closed (m : Machine) :
      (reached (t.run { m with scopes := m.scopes.openWith (some owner) bindings })).scopes.close
        (some owner) = .ok m.scopes :=
    (grows { m with scopes := m.scopes.openWith (some owner) bindings }).close_top.1
  constructor
  case admits =>
    intro m ready moment member
    have here := inside.admits _ (opens m ready)
    have closed := closed m
    simp only [Traced.inFrame, List.mem_append, List.mem_singleton] at member
    rcases member with (member | rfl) | member
    · exact here moment member
    · exact .of_ne (fun _ _ _ => Event.noConfusion) fun _ _ => Event.noConfusion
    · generalize t.run { m with scopes := m.scopes.openWith (some owner) bindings } = r
        at closed member
      cases r with
      | ok a m' =>
        simp only [following, reached] at closed member
        rw [closed] at member
        exact absurd member List.not_mem_nil
      | error stop m' => exact absurd member List.not_mem_nil
  case lands =>
    intro m ready
    have here := inside.lands _ (opens m ready)
    have closed := closed m
    simp only [Traced.inFrame, Run.inFrame]
    generalize t.run { m with scopes := m.scopes.openWith (some owner) bindings } = r
      at closed here
    cases here with
    | ok value after =>
      simp only [reached] at closed ⊢
      rw [closed]
      exact .ok value (ready.withHeap rfl after.heap)
    | error fits after =>
      simp only [reached] at closed ⊢
      rw [closed]
      exact .error fits (ready.withHeap rfl after.heap)

/-- A call. Its code leaves no loop, since no loop is around it inside the function. -/
theorem asCall {t : Traced (Option CellRef)} (inside : Safe k false names t)
    (active : List Activation) (node : TreeNode) (site : Span) :
    Safe k loop names (asCall active node site t) := by
  have counted {m : Machine} (ready : k.Ready names m) (calls : Nat) :
      k.Ready names { m with calls := calls } := ready.withHeap rfl ready.heap
  constructor
  case admits =>
    intro m ready moment member
    have here := inside.lands _ (counted ready (m.calls + 1))
    simp only [Traced.asCall, List.mem_append] at member
    rcases member with member | member
    · exact inside.admits _ (counted ready (m.calls + 1)) moment member
    · generalize t.run { m with calls := m.calls + 1 } = r at here member
      cases here with
      | ok _ _ => exact absurd member List.not_mem_nil
      | @error stop m' fits _ =>
        cases stop with
        | brk span | cont span => exact absurd fits Bool.false_ne_true
        | ret | fault | exhausted => exact absurd member List.not_mem_nil
  case lands =>
    intro m ready
    have here := inside.lands _ (counted ready (m.calls + 1))
    simp only [Traced.asCall, Eval.asCall_apply]
    generalize t.run { m with calls := m.calls + 1 } = r at here
    cases here with
    | @ok result m' _ after =>
      cases result with
      | some d => exact .ok trivial (counted after _)
      | none =>
        have heap := after.heap.newCell (v := .empty) (Knowledge.trustsValue_of_ne nofun)
        exact .ok trivial (after.withHeap rfl heap)
    | @error stop m' _ after =>
      cases stop with
      | ret d => exact .ok trivial (counted after _)
      | brk | cont | fault | exhausted => exact .error trivial (counted after _)

/-- One round of a loop, whose body may leave it. -/
theorem round {body next : Traced Unit} (first : Safe k true names body)
    (rest : Safe k loop names next) : Safe k loop names (round body next) := by
  constructor
  case admits =>
    intro m ready moment member
    have here := first.lands m ready
    simp only [Traced.round, List.mem_append] at member
    rcases member with member | member
    · exact first.admits m ready moment member
    · generalize body.run m = r at here member
      cases here with
      | ok _ after => exact rest.admits _ after moment member
      | @error stop m' _ after =>
        cases stop with
        | cont span => exact rest.admits _ after moment member
        | brk | ret | fault | exhausted => exact absurd member List.not_mem_nil
  case lands =>
    intro m ready
    have here := first.lands m ready
    simp only [Traced.round, Run.round]
    generalize body.run m = r at here
    cases here with
    | ok _ after => exact rest.lands _ after
    | @error stop m' _ after =>
      cases stop with
      | cont span => exact rest.lands _ after
      | brk span => exact .ok trivial after
      | ret | fault | exhausted => exact .error trivial after

theorem forCount {body : Int64 → Traced Unit} (each : ∀ v, Safe k true names (body v)) (count : Nat)
    (v : Int64) : Safe k loop names (forCount body count v) := by
  induction count generalizing v with
  | zero => exact pure trivial
  | succ count ih => exact round (each v) (ih (v + 1))

theorem whileHolds {condition : Traced Bool} {body : Traced Unit}
    (holds : Safe k loop names condition) (inside : Safe k true names body) (rounds : Nat) :
    Safe k loop names (whileHolds condition body rounds) := by
  induction rounds with
  | zero => exact exhausted
  | succ rounds ih =>
    refine andThen holds fun goes _ => ?_
    split
    · exact round inside ih
    · exact pure trivial

end Meets

end CellScript
