import CellScript.Eval

/-! Steps that stay with names and heap. They look at nothing else of the machine and change at most its
heap, and they end with a value or a fault. Most of what evaluation does at once is made of such steps; only
binding a name, printing and reading are not. -/
namespace CellScript.Run

variable {α β : Type}

/-- The end of a step with a value or a fault, and with another heap. -/
def settle (m : Machine) (h : Heap) : Except RuntimeError α → EStateM.Result Stop Machine α
  | .ok a => .ok a { m with heap := h }
  | .error e => .error (.fault e) { m with heap := h }

/-- A step that names and heap determine, and that changes nothing but the heap. -/
def Inward (x : Run α) : Prop :=
  ∀ s h, ∃ r h', ∀ calls output input, x ⟨h, s, calls, output, input⟩ = settle ⟨h, s, calls, output, input⟩ h' r

namespace Inward

theorem pure (a : α) : Inward (Pure.pure a : Run α) := fun _ h => ⟨.ok a, h, fun _ _ _ => rfl⟩

theorem fail (span : Span) (fault : Fault) : Inward (fail span fault : Run α) :=
  fun _ h => ⟨.error ⟨fault, span, []⟩, h, fun _ _ _ => rfl⟩

theorem bind {x : Run α} {f : α → Run β} (first : Inward x) (rest : ∀ a, Inward (f a)) :
    Inward (x >>= f) := by
  intro s h
  have step (m : Machine) : (x >>= f) m = EStateM.bind x f m := rfl
  obtain ⟨r, h', first⟩ := first s h
  cases r with
  | error e =>
    refine ⟨.error e, h', fun calls output input => ?_⟩
    rw [step, EStateM.bind, first]
    rfl
  | ok a =>
    obtain ⟨r, h'', rest⟩ := rest a s h'
    refine ⟨r, h'', fun calls output input => ?_⟩
    rw [step, EStateM.bind, first]
    refine (rest calls output input).trans ?_
    cases r <;> rfl

/-- A step whose course names and heap decide. -/
theorem looking {f : Machine → Run α}
    (same : ∀ m n : Machine, m.scopes = n.scopes → m.heap = n.heap → f m = f n)
    (each : ∀ m, Inward (f m)) : Inward (get >>= f) := by
  intro s h
  obtain ⟨r, h', ends⟩ := each { Machine.initial with heap := h, scopes := s } s h
  refine ⟨r, h', fun calls output input => Eq.trans ?_ (ends calls output input)⟩
  have moved := same ⟨h, s, calls, output, input⟩ { Machine.initial with heap := h, scopes := s } rfl rfl
  exact congrFun moved _

theorem locate (span : Span) (r : Except Fault α) : Inward (locate span r) := by
  cases r with
  | ok a => exact pure a
  | error fault => exact fail span fault

theorem contents (c : CellRef) : Inward (contents c) :=
  fun _ h => ⟨.ok (h.get c), h, fun _ _ _ => rfl⟩

theorem newCell (v : Value) : Inward (newCell v) :=
  fun _ h => ⟨.ok (h.newCell v).1, (h.newCell v).2, fun _ _ _ => rfl⟩

theorem setCell (c : CellRef) (v : Value) : Inward (setCell c v) :=
  fun _ h => ⟨.ok (), h.set c v, fun _ _ _ => rfl⟩

theorem newArray (cells : List CellRef) : Inward (newArray cells) := fun _ h =>
  ⟨.ok (h.newArray (.ofList cells)).1, (h.newArray (.ofList cells)).2, fun _ _ _ => rfl⟩

theorem newTuple (span : Span) (fields : List (Text × CellRef)) : Inward (newTuple span fields) := by
  unfold Run.newTuple
  cases Tuple.ofFields fields with
  | ok t => exact fun _ h => ⟨.ok (h.newTuple t).1, (h.newTuple t).2, fun _ _ _ => rfl⟩
  | error name => exact fail _ _

theorem slot (a : ArrayRef) (key : Int64) : Inward (slot a key) :=
  fun _ h => ⟨.ok (h.slot a key).1, (h.slot a key).2, fun _ _ _ => rfl⟩

theorem onHeap (span : Span) (f : Heap → Except Fault (Value × Heap)) : Inward (onHeap span f) := by
  intro s h
  unfold Run.onHeap
  dsimp only
  cases f h with
  | ok result => exact ⟨.ok result.1, result.2, fun _ _ _ => rfl⟩
  | error fault => exact ⟨.error ⟨fault, span, []⟩, h, fun _ _ _ => rfl⟩

theorem lookup (span : Span) (name : Text) : Inward (lookup span name) :=
  looking (fun _ _ names _ => by rw [names]) fun _ => locate _ _

theorem itemAt (span : Span) (position : Int64) (v : Value) : Inward (Eval.itemAt span position v) := by
  cases v with
  | tuple t =>
    refine looking (fun _ _ _ heap => by rw [heap]) fun m => ?_
    dsimp only
    split
    · exact pure _
    · exact fail _ _
  | _ => exact fail _ _

theorem itemNamed (span : Span) (name : Text) (v : Value) : Inward (Eval.itemNamed span name v) := by
  cases v with
  | tuple t =>
    refine looking (fun _ _ _ heap => by rw [heap]) fun m => ?_
    split
    · exact pure _
    · exact fail _ _
  | _ => exact fail _ _

theorem itemUnder (span keySpan : Span) (key : CellRef) (v : Value) :
    Inward (Eval.itemUnder span keySpan key v) := by
  cases v with
  | array a =>
    refine bind (contents key) fun w => ?_
    cases w with
    | int k => exact slot a k
    | _ => exact fail _ _
  | _ => exact fail _ _

theorem assignTo (span : Span) (target : CellRef) (op : Word AssignOp) (v : Value) :
    Inward (Eval.assignTo span target op v) := by
  cases op with
  | other w _ => exact fail _ _
  | known op =>
    cases op with
    | set => exact setCell target v
    | add | subtract =>
      exact bind (contents target) fun old => bind (onHeap _ _) fun new => setCell target new

theorem closure (span : Span) (params : List Text) (code : Code) : Inward (Eval.closure span params code) :=
  looking (fun _ _ names _ => by rw [names]) fun _ => newCell _

theorem knowItself (name : Text) (c : CellRef) : Inward (Eval.knowItself name c) := by
  refine bind (contents c) fun v => ?_
  cases v with
  | func f => exact fun _ h => ⟨.ok (), h.put c _, fun _ _ _ => rfl⟩
  | _ => exact pure ()

end Inward

end CellScript.Run
