import CellScript.Proofs.Discipline

/-! What the innermost call can reach. The frame of a call lies on top of the frames of its callers, so
the open frames split: those that belong to the innermost call, and those below it that belong to the
callers. -/
namespace CellScript

/-- Whether a call opened the frame. -/
def Frame.isCall (f : Frame) : Bool := f.owner.any (·.kind == .function)

namespace Scopes

/-- The frames of the innermost call: its own one and those opened since. Without a call, all. -/
def sinceCall : List Frame → List Frame
  | [] => []
  | f :: fs => if f.isCall then [f] else f :: sinceCall fs

/-- The frames below that of the innermost call. -/
def belowCall : List Frame → List Frame
  | [] => []
  | f :: fs => if f.isCall then fs else belowCall fs

theorem sinceCall_append_belowCall (fs : List Frame) : sinceCall fs ++ belowCall fs = fs := by
  induction fs with
  | nil => rfl
  | cons f fs ih =>
    unfold sinceCall belowCall
    split
    · rfl
    · rw [List.cons_append, ih]

theorem belowCall_of_outside {fs : List Frame} (outside : fs.any Frame.isCall = false) :
    belowCall fs = [] := by
  induction fs with
  | nil => rfl
  | cons f fs ih =>
    rw [List.any_cons, Bool.or_eq_false_iff] at outside
    rw [belowCall, if_neg (by simp [outside.1]), ih outside.2]

/-- The scopes as the innermost call has them for its own: neither the frames of its callers nor,
unless no call is open, the global one. -/
def own (s : Scopes) : Scopes :=
  ⟨if s.inner.any Frame.isCall then [] else s.globals, sinceCall s.inner⟩

/-- The cell of a name in the frames of the callers. -/
def callers? (s : Scopes) (name : Text) : Option CellRef :=
  (belowCall s.inner).findSome? fun f => f.bindings.get? name

/-- A name is looked up in the scopes of the innermost call, in those of its callers and at last in
the global frame. -/
theorem lookup?_eq_own_or (s : Scopes) (name : Text) :
    s.lookup? name = (s.own.lookup? name).or ((s.callers? name).or (s.globals.get? name)) := by
  obtain ⟨globals, inner⟩ := s
  have whole : (inner.findSome? fun f => f.bindings.get? name) =
      ((sinceCall inner).findSome? fun f => f.bindings.get? name).or
        ((belowCall inner).findSome? fun f => f.bindings.get? name) := by
    rw [← List.findSome?_append, sinceCall_append_belowCall]
  cases called : inner.any Frame.isCall with
  | true => simp [lookup?, own, callers?, whole, called, Option.or_assoc]
  | false =>
    simp only [lookup?, own, callers?, whole, called, belowCall_of_outside called,
      List.findSome?_nil, Option.or_none, Option.none_or, Bool.false_eq_true, if_false]
    rw [Option.or_assoc, Option.or_self]

theorem isSome_lookup?_of_own {s : Scopes} {name : Text} (bound : (s.own.lookup? name).isSome) :
    (s.lookup? name).isSome := by
  rw [lookup?_eq_own_or, Option.isSome_or, bound, Bool.true_or]

/-- A frame that is opened inside a call belongs to the call. -/
theorem own_openWith (s : Scopes) {owner : Option Owner}
    (plain : owner.any (·.kind == .function) = false) (bindings : Bindings) :
    (s.openWith owner bindings).own = s.own.openWith owner bindings := by
  have inside : Frame.isCall ⟨owner, bindings⟩ = false := plain
  simp [own, openWith, sinceCall, inside]

/-- A call starts with nothing but its own frame. -/
theorem own_openCall (s : Scopes) {owner : Option Owner}
    (call : owner.any (·.kind == .function) = true) (bindings : Bindings) :
    (s.openWith owner bindings).own = ⟨[], [⟨owner, bindings⟩]⟩ := by
  have opened : Frame.isCall ⟨owner, bindings⟩ = true := call
  simp [own, openWith, sinceCall, opened]

theorem own_bind (s : Scopes) (name : Text) (c : CellRef) :
    (s.bind name c).own = s.own.bind name c := by
  obtain ⟨globals, inner⟩ := s
  cases inner with
  | nil => rfl
  | cons f fs =>
    have same : Frame.isCall { f with bindings := f.bindings.set name c } = f.isCall := rfl
    cases called : f.isCall <;> simp [own, bind, sinceCall, same, called]

end Scopes

end CellScript
