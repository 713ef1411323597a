import CellScript.Proofs.Checking.Meets

/-! Which names are bound. A name that the checks take for declared is bound in the frames that are
open, in what a function captures there and in the frame of a call. -/
namespace CellScript

open Run

namespace Bindings

variable {b top : Bindings} {name : Text}

theorem isSome_get?_set (other : Text) (c : CellRef) :
    ((b.set other c).get? name).isSome ↔ name = other ∨ (b.get? name).isSome := by
  rw [get?_set]
  split
  · exact iff_of_true rfl (.inl ‹_›)
  · exact (or_iff_right ‹_›).symm

theorem isSome_get?_override :
    ((b.override top).get? name).isSome ↔ name ∈ top.map (·.1) ∨ (b.get? name).isSome := by
  induction top generalizing b with
  | nil => simp [override]
  | cons e top ih =>
    have step : b.override (e :: top) = (b.set e.1 e.2).override top := rfl
    rw [step, ih, isSome_get?_set, List.map_cons, List.mem_cons]
    tauto

theorem isSome_get? : (b.get? name).isSome ↔ name ∈ b.map (·.1) := by
  induction b with
  | nil => simp
  | cons e b ih =>
    rw [get?_cons, List.map_cons, List.mem_cons]
    split
    · exact iff_of_true rfl (.inl ‹_›)
    · exact ih.trans (or_iff_right ‹_›).symm

end Bindings

namespace Scopes

variable {s t : Scopes} {name : Text}

theorem lookup?_openWith (s : Scopes) (owner : Option Owner) (bindings : Bindings) (name : Text) :
    (s.openWith owner bindings).lookup? name = (bindings.get? name).or (s.lookup? name) := by
  unfold lookup? openWith
  rw [List.findSome?_cons]
  cases bindings.get? name <;> rfl

theorem isSome_lookup?_globals (bound : (s.globals.get? name).isSome) : (s.lookup? name).isSome := by
  unfold lookup?
  rw [Option.isSome_or, bound, Bool.or_true]

theorem Grown.isSome_globals (grown : Grown s t) (bound : (s.globals.get? name).isSome) :
    (t.globals.get? name).isSome := by
  cases grown with
  | globals more => exact more name bound
  | frame _ => exact bound

theorem isSome_lookup?_single {owner : Option Owner} {bindings : Bindings} :
    (lookup? ⟨[], [⟨owner, bindings⟩]⟩ name).isSome ↔ (bindings.get? name).isSome := by
  cases found : bindings.get? name <;> simp [lookup?, found]

/-- What is captured has all names that can be looked up. -/
theorem isSome_get?_snapshot (bound : (s.lookup? name).isSome) : (s.snapshot.get? name).isSome := by
  obtain ⟨globals, inner⟩ := s
  induction inner with
  | nil => exact bound
  | cons f fs ih =>
    change ((Bindings.override (snapshot ⟨globals, fs⟩) f.bindings).get? name).isSome
    have opened := lookup?_openWith ⟨globals, fs⟩ f.owner f.bindings name
    change lookup? ⟨globals, f :: fs⟩ name = _ at opened
    rw [opened, Option.isSome_or, Bool.or_eq_true, Bindings.isSome_get?] at bound
    exact Bindings.isSome_get?_override.mpr (bound.imp id ih)

theorem isSome_lookup?_bind (c : CellRef) {other : Text}
    (bound : other = name ∨ (s.lookup? other).isSome) : ((s.bind name c).lookup? other).isSome := by
  obtain ⟨globals, inner⟩ := s
  cases inner with
  | nil => exact (Bindings.isSome_get?_set name c).mpr bound
  | cons f fs =>
    have before := lookup?_openWith ⟨globals, fs⟩ f.owner f.bindings other
    have after := lookup?_openWith ⟨globals, fs⟩ f.owner (f.bindings.set name c) other
    change lookup? ⟨globals, f :: fs⟩ other = _ at before
    change lookup? (bind ⟨globals, f :: fs⟩ name c) other = _ at after
    rw [before, Option.isSome_or, Bool.or_eq_true] at bound
    rw [after, Option.isSome_or, Bool.or_eq_true, Bindings.isSome_get?_set]
    exact or_assoc.mpr bound

end Scopes

namespace Knowledge.Ready

variable {k : Knowledge} {names names' : List Text} {m : Machine} {name : Text}

theorem bind (ready : k.Ready names m) (name : Text) (c : CellRef) :
    k.Ready (name :: names) { m with scopes := m.scopes.bind name c } where
  heap := ready.heap
  seeded := fun tracks o origin seed member =>
    (Scopes.Grown.bind m.scopes name c).isSome_globals (ready.seeded tracks o origin seed member)
  bound := by
    intro tracks other member
    rw [Scopes.own_bind]
    refine Scopes.isSome_lookup?_bind c ?_
    exact (List.mem_cons.mp member).imp id (ready.bound tracks other)

/-- A frame inside a call hides no name. -/
theorem openPlain (ready : k.Ready names m) {owner : Option Owner}
    (plain : owner.any (·.kind == .function) = false) (bindings : Bindings) :
    k.Ready names { m with scopes := m.scopes.openWith owner bindings } where
  heap := ready.heap
  seeded := ready.seeded
  bound := by
    intro tracks name member
    rw [Scopes.own_openWith _ plain, Scopes.lookup?_openWith, Option.isSome_or, Bool.or_eq_true]
    exact .inr (ready.bound tracks name member)

/-- A function that is made where a literal stands captured what its code counts on. -/
theorem trusts_snapshot {o : Origin} {home : Option Literal} {c : Check.Context} {self : Text}
    {f : Closure} (ready : k.Ready c.names m) (origin : k.known o)
    (visit : Visits o home c self (.literal f.literal))
    (captured : ∀ name, (m.scopes.snapshot.get? name).isSome ∨ (self ≠ [] ∧ name = self) →
      (f.captured.get? name).isSome) : k.Trusts f := by
  refine ⟨o, home, c, self, origin, visit, fun tracks name counted => captured name ?_⟩
  rcases counted with member | seed
  · rcases Check.Context.mem_names_enterFunction_self.mp member with named | outer
    · exact .inr named
    · have bound := Scopes.isSome_lookup?_of_own (ready.bound tracks name outer)
      exact .inl (Scopes.isSome_get?_snapshot bound)
  · have bound := Scopes.isSome_lookup?_globals (ready.seeded tracks o origin name seed)
    exact .inl (Scopes.isSome_get?_snapshot bound)

/-- The frame of a call binds the parameters and what the function captured. -/
theorem openCall {c : Check.Context} {self : Text} {f : Closure} {site : Span}
    {calls : List Activation} {arguments : List CellRef} {owner : Option Owner}
    (ready : k.Ready names m) (call : owner.any (·.kind == .function) = true)
    (captured : k.tracks → ∀ name ∈ (c.enterFunction self []).names, (f.captured.get? name).isSome)
    (count : arguments.length = f.arity) :
    k.Ready ((c.enterFunction self f.params).held (⟨f, site⟩ :: calls)) { m with
      scopes := m.scopes.openWith owner (f.captured.override (f.params.zip arguments)) } where
  heap := ready.heap
  seeded := ready.seeded
  bound := by
    intro tracks name member
    rw [Scopes.own_openCall _ call, Scopes.isSome_lookup?_single, Bindings.isSome_get?_override,
      List.map_fst_zip (Nat.le_of_eq count.symm)]
    rcases List.mem_append.mp member with known | stored
    · rcases Check.Context.mem_names_enterFunction.mp known with param | outer
      · exact .inl param
      · exact .inr (captured tracks name outer)
    · exact .inr (Bindings.isSome_get?.mpr stored)

end Knowledge.Ready

namespace Meets

open Traced

variable {k : Knowledge} {loop : Bool} {names : List Text} {o : Origin} {home : Option Literal}
  {c : Check.Context} {active : List Activation}

theorem bindName (name : Text) (d : CellRef) :
    Meets k loop names (name :: names) (fun _ => True) (Traced.quiet (bindName name d)) where
  admits := fun _ _ _ member => absurd member List.not_mem_nil
  lands := fun _ ready => .ok trivial (ready.bind name d)

/-- A reference that the checks let pass finds its cell, or its name is declared at the top level
and the reference stands in a function. -/
theorem lookup {span : Span} {name : Text} {ts : List Tail} (origin : k.known o)
    (homed : Homed k o home active) (visit : Visits o home c [] (.primary (.ref span name ts))) :
    Safe k loop (c.held active)
      (Traced.own active (.primary (.ref span name ts)) (lookup span name)) := by
  have run (m : Machine) : Run.lookup span name m = Run.locate span (m.scopes.lookup name) m := rfl
  have late (m : Machine) (ready : k.Ready (c.held active) m) (missing : m.scopes.lookup? name = none)
      (tracks : k.tracks) : Late k.known name ⟨active, .raised (.primary (.ref span name ts))
        ⟨.undefinedVariable name, span, []⟩ m⟩ := by
    have unbound : m.scopes.globals.get? name = none := by
      by_contra bound
      have found := Scopes.isSome_lookup?_globals (Option.isSome_iff_ne_none.mpr bound)
      rw [missing] at found
      cases found
    have outer : name ∉ c.names := by
      intro known
      have found := Scopes.isSome_lookup?_of_own
        (ready.bound tracks name (List.mem_append_left _ known))
      rw [missing] at found
      cases found
    have fresh : name ∉ o.seeds := by
      intro seed
      have found := ready.seeded tracks o origin name seed
      rw [unbound] at found
      cases found
    rcases visit.known_reference (k.clean o origin) with known | seed | ⟨inside, declared⟩
    · exact absurd known outer
    · exact absurd seed fresh
    · cases homed with
      | outside => cases inside
      | inside _ => exact .reference origin visit declared fresh outer unbound
  constructor
  case admits =>
    intro m ready moment member
    simp only [Traced.own, run, Scopes.lookup] at member
    cases found : m.scopes.lookup? name with
    | some d =>
      rw [found] at member
      exact absurd member List.not_mem_nil
    | none =>
      rw [found] at member
      rw [List.mem_singleton.mp member]
      refine .of_raised ?_
      rintro node e m₁ ⟨⟩
      exact .inr ⟨name, rfl, late m ready found⟩
  case lands =>
    intro m ready
    simp only [Traced.own, run, Scopes.lookup]
    cases m.scopes.lookup? name with
    | some d => exact .ok trivial ready
    | none => exact .error trivial ready

/-- A function literal that is not declared. -/
theorem closure {l : Literal} {span : Span} {params : List Text} {code : Code}
    (origin : k.known o) (visit : Visits o home c [] (.literal l))
    (written : ∀ captured, Closure.literal ⟨span, params, code, captured⟩ = l) :
    Safe k loop (c.held active) (Traced.quiet (Eval.closure span params code)) where
  admits := fun _ _ _ member => absurd member List.not_mem_nil
  lands := by
    intro m ready
    refine .ok trivial (ready.withHeap rfl (ready.heap.newCell ?_))
    rintro f ⟨⟩
    have visit : Visits o home c []
        (.literal (Closure.literal ⟨span, params, code, m.scopes.snapshot⟩)) := by
      rw [written]
      exact visit
    have declared : k.Ready c.names m := ready.mono (List.subset_append_left _ _)
    exact declared.trusts_snapshot origin visit fun name bound =>
      bound.resolve_right fun named => named.1 rfl

end Meets

end CellScript
