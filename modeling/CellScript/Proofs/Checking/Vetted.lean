import CellScript.Proofs.Cells
import CellScript.Proofs.Checking.Reach
import CellScript.Proofs.Checking.Walk
import CellScript.Proofs.Tuples.Fields

/-! What checked programs leave in a machine. Every function in a cell was written by a program in
which the checks report no error, and it captured the names on which its code counts. The steps that
an evaluation is made of keep this up. -/
namespace CellScript

open Run Check

/-- What is taken for granted about the programs that ran so far. -/
structure Knowledge where
  known : Origin → Prop
  clean : ∀ o, known o → o.Clean
  /-- Whether the names are taken into account, and not the rest of the checks alone. -/
  tracks : Prop

namespace Knowledge

variable (k : Knowledge)

/-- A known program wrote the function, whose bindings cover the names declared around it and those
that were bound before the program. -/
def Trusts (f : Closure) : Prop :=
  ∃ o home c self, k.known o ∧ Visits o home c self (.literal f.literal) ∧
    (k.tracks → ∀ name, name ∈ (c.enterFunction self []).names ∨ name ∈ o.seeds →
      (f.captured.get? name).isSome)

def TrustsValue (v : Value) : Prop := ∀ f, v = .func f → k.Trusts f

def TrustsHeap (h : Heap) : Prop := ∀ v ∈ h.cells, k.TrustsValue v

/-- The names that were bound before a known program was checked are bound globally. -/
def Seeded (s : Scopes) : Prop :=
  k.tracks → ∀ o, k.known o → ∀ name ∈ o.seeds, (s.globals.get? name).isSome

/-- What evaluation needs from a machine where some names are declared. They are bound without the
help of callers. -/
structure Ready (names : List Text) (m : Machine) : Prop where
  heap : k.TrustsHeap m.heap
  seeded : k.Seeded m.scopes
  bound : k.tracks → ∀ name ∈ names, (m.scopes.own.lookup? name).isSome

variable {k} {h : Heap} {v : Value}

theorem trustsValue_of_ne (other : ∀ f, v ≠ .func f) : k.TrustsValue v :=
  fun f same => absurd same (other f)

namespace TrustsHeap

theorem get (trusts : k.TrustsHeap h) (c : CellRef) : k.TrustsValue (h.get c) :=
  Heap.All.get (fun _ code _ => trustsValue_of_ne code) trusts c

theorem newCell (trusts : k.TrustsHeap h) (value : k.TrustsValue v) :
    k.TrustsHeap (h.newCell v).2 := Heap.All.newCell trusts value

theorem set (trusts : k.TrustsHeap h) (value : k.TrustsValue v) (c : CellRef) :
    k.TrustsHeap (h.set c v) := Heap.All.set (fun _ code _ => trustsValue_of_ne code) trusts value c

theorem slot (trusts : k.TrustsHeap h) (a : ArrayRef) (key : Int64) :
    k.TrustsHeap (h.slot a key).2 := Heap.All.slot (fun _ code _ => trustsValue_of_ne code) trusts a key

end TrustsHeap

end Knowledge

/-- A fault that the checks do not try to rule out. -/
def Fault.unchecked : Fault → Bool
  | .strayBreak | .strayContinue | .duplicateKey _ | .undefinedVariable _ => false
  | _ => true

theorem Fault.kind_of_unchecked {fault : Fault} (unchecked : fault.unchecked = true) :
    fault.kind ≠ .controlFlowEscape ∧ fault.kind ≠ .keyConflict := by
  cases fault with
  | strayBreak | strayContinue | duplicateKey | undefinedVariable => cases unchecked
  | _ => exact ⟨FaultKind.noConfusion, FaultKind.noConfusion⟩

/-- A value with `good` or a fault with `bad`. -/
inductive Gives {α : Type} (good : α → Prop) (bad : Fault → Prop) : Except Fault α → Prop where
  | ok {a : α} (value : good a) : Gives good bad (.ok a)
  | error {fault : Fault} (allowed : bad fault) : Gives good bad (.error fault)

theorem Gives.mono {α : Type} {good good' : α → Prop} {bad bad' : Fault → Prop}
    {r : Except Fault α} (gives : Gives good bad r) (better : ∀ a, good a → good' a)
    (worse : ∀ fault, bad fault → bad' fault) : Gives good' bad' r := by
  cases gives with
  | ok value => exact .ok (better _ value)
  | error allowed => exact .error (worse _ allowed)

/-- A step that keeps the heap trusted. Its value has `V`, and if it stops, then with one of the
faults `A`. -/
def Run.Harmless {α : Type} (k : Knowledge) (A : Fault → Prop) (V : α → Prop) (x : Run α) : Prop :=
  ∀ m, k.TrustsHeap m.heap →
    match x m with
    | .ok a m' => V a ∧ k.TrustsHeap m'.heap
    | .error stop m' => (∃ e, stop = .fault e ∧ A e.fault) ∧ k.TrustsHeap m'.heap

namespace Run.Harmless

open Knowledge

variable {α β : Type} {k : Knowledge} {A : Fault → Prop} {V : α → Prop} {W : β → Prop}

theorem pure {a : α} (value : V a) : Harmless k A V (Pure.pure a) := fun _ trusts => ⟨value, trusts⟩

theorem fail {fault : Fault} (allowed : A fault) (span : Span) :
    Harmless k A V (fail span fault) := fun _ trusts => ⟨⟨_, rfl, allowed⟩, trusts⟩

theorem bind {x : Run α} {f : α → Run β} (first : Harmless k A V x)
    (rest : ∀ a, V a → Harmless k A W (f a)) : Harmless k A W (x >>= f) := by
  intro m trusts
  have here := first m trusts
  change match EStateM.bind x f m with | .ok b m' => _ | .error stop m' => _
  unfold EStateM.bind
  generalize x m = r at here
  cases r with
  | error stop m' => exact here
  | ok a m' => exact rest a here.1 m' here.2

theorem mono {A' : Fault → Prop} {x : Run α} (harmless : Harmless k A V x)
    (more : ∀ fault, A fault → A' fault) : Harmless k A' V x := by
  intro m trusts
  have here := harmless m trusts
  generalize x m = r at here ⊢
  cases r with
  | ok a m' => exact here
  | error stop m' =>
    obtain ⟨⟨e, same, allowed⟩, kept⟩ := here
    exact ⟨⟨e, same, more _ allowed⟩, kept⟩

theorem get : Harmless k A (fun m => k.TrustsHeap m.heap) get := fun _ trusts => ⟨trusts, trusts⟩

theorem locate {r : Except Fault α} (gives : Gives V A r) (span : Span) :
    Harmless k A V (locate span r) := by
  cases gives with
  | ok value => exact pure value
  | error allowed => exact fail allowed span

theorem onHeap {f : Heap → Except Fault (Value × Heap)}
    (gives : ∀ h, Gives (fun r => k.TrustsValue r.1 ∧ r.2.cells = h.cells) A (f h)) (span : Span) :
    Harmless k A k.TrustsValue (onHeap span f) := by
  intro m trusts
  have here := gives m.heap
  unfold Run.onHeap
  generalize f m.heap = r at here
  cases here with
  | @ok r kept =>
    obtain ⟨v, h⟩ := r
    refine ⟨kept.1, ?_⟩
    unfold TrustsHeap
    rw [kept.2]
    exact trusts
  | error allowed => exact ⟨⟨_, rfl, allowed⟩, trusts⟩

theorem contents (c : CellRef) : Harmless k A k.TrustsValue (contents c) :=
  fun _ trusts => ⟨trusts.get c, trusts⟩

theorem newCell {v : Value} (value : k.TrustsValue v) : Harmless k A (fun _ => True) (newCell v) :=
  fun _ trusts => ⟨trivial, trusts.newCell value⟩

theorem setCell {v : Value} (value : k.TrustsValue v) (c : CellRef) :
    Harmless k A (fun _ => True) (setCell c v) :=
  fun _ trusts => ⟨trivial, trusts.set value c⟩

theorem newArray (cs : List CellRef) : Harmless k A k.TrustsValue (newArray cs) :=
  fun _ trusts => ⟨trustsValue_of_ne nofun, trusts⟩

theorem newTuple {fields : List (Text × CellRef)} (distinct : Tuple.repeated? [] fields = none)
    (span : Span) : Harmless k A k.TrustsValue (newTuple span fields) := by
  unfold Run.newTuple
  rw [Tuple.ofFields_eq, distinct]
  exact fun _ trusts => ⟨trustsValue_of_ne nofun, trusts⟩

theorem slot (a : ArrayRef) (key : Int64) : Harmless k A (fun _ => True) (slot a key) :=
  fun _ trusts => ⟨trivial, trusts.slot a key⟩

theorem print {v : Value} (allowed : A .writeFailed) (span : Span) :
    Harmless k A (fun _ => True) (print span v) := by
  intro m trusts
  unfold Run.print
  dsimp only
  split <;> rename_i ended <;> split at ended <;> cases ended
  · exact ⟨trivial, trusts⟩
  · exact ⟨⟨_, rfl, allowed⟩, trusts⟩

section

variable (usual : ∀ fault : Fault, fault.unchecked = true → A fault)

include usual

theorem readWord (span : Span) (what : Text) :
    Harmless k A (fun _ => True) (readWord span what) := by
  intro m trusts
  unfold Run.readWord
  dsimp only
  by_cases failed : m.output.beforeRead.linked && m.output.beforeRead.failed
  · rw [if_pos failed]
    exact ⟨⟨_, rfl, usual _ rfl⟩, trusts⟩
  · rw [if_neg failed]
    obtain ⟨result, input⟩ := m.input.read
    cases result with
    | ok w => exact ⟨trivial, trusts⟩
    | error stop =>
      dsimp only
      cases stop.cause? with
      | none => exact ⟨⟨_, rfl, usual _ rfl⟩, trusts⟩
      | some cause => exact ⟨⟨_, rfl, usual _ rfl⟩, trusts⟩

theorem readValue (span : Span) (kind : Word ReadKind) :
    Harmless k A k.TrustsValue (readValue span kind) := by
  cases kind with
  | other w _ => exact fail (usual _ rfl) span
  | known kind =>
    refine bind (readWord usual _ _) fun w _ => ?_
    cases kind with
    | int =>
      dsimp only
      split
      · exact pure (trustsValue_of_ne nofun)
      · exact fail (usual _ rfl) span
    | real =>
      dsimp only
      split
      · exact pure (trustsValue_of_ne nofun)
      · exact fail (usual _ rfl) span
    | string => exact pure (trustsValue_of_ne nofun)

theorem itemAt (span : Span) (position : Int64) (v : Value) :
    Harmless k A (fun _ => True) (Eval.itemAt span position v) := by
  cases v with
  | tuple t =>
    refine bind get fun m _ => ?_
    dsimp only
    split
    · exact pure trivial
    · exact fail (usual _ rfl) span
  | _ => exact fail (usual _ rfl) span

theorem itemNamed (span : Span) (name : Text) (v : Value) :
    Harmless k A (fun _ => True) (Eval.itemNamed span name v) := by
  cases v with
  | tuple t =>
    refine bind get fun m _ => ?_
    split
    · exact pure trivial
    · exact fail (usual _ rfl) span
  | _ => exact fail (usual _ rfl) span

theorem itemUnder (span keySpan : Span) (key : CellRef) (v : Value) :
    Harmless k A (fun _ => True) (Eval.itemUnder span keySpan key v) := by
  cases v with
  | array a =>
    refine bind (contents key) fun w _ => ?_
    cases w with
    | int n => exact slot a n
    | _ => exact fail (usual _ rfl) keySpan
  | _ => exact fail (usual _ rfl) span

end

end Run.Harmless

end CellScript
