import CellScript.Proofs.Plan.Heaps
import CellScript.Proofs.Plan.Laws

/-! What a plan keeps depends on what it is made of. A property of heaps that not all acts keep is followed
through the acts of one plan, with what is known of their results. -/
namespace CellScript

open Run

namespace Run

variable {α : Type} {K : Heap → Prop} {Q : α → Prop}

/-- A step that ended with a heap that has a property, and if it gave a value, with one that has another. -/
inductive Leaves (K : Heap → Prop) (Q : α → Prop) : EStateM.Result Stop Machine α → Prop where
  | ok {a : α} {m : Machine} (value : Q a) (heap : K m.heap) : Leaves K Q (.ok a m)
  | error {s : Stop} {m : Machine} (heap : K m.heap) : Leaves K Q (.error s m)

namespace Leaves

theorem heap {r : EStateM.Result Stop Machine α} (leaves : Leaves K Q r) : K (reached r).heap := by
  cases leaves with
  | ok value heap => exact heap
  | error heap => exact heap

theorem of_heap {r : EStateM.Result Stop Machine α} (heap : K (reached r).heap) : Leaves K (fun _ => True) r := by
  cases r with
  | ok a m => exact .ok trivial heap
  | error s m => exact .error heap

theorem weaken {P : α → Prop} {r : EStateM.Result Stop Machine α} (leaves : Leaves K Q r)
    (less : ∀ a, Q a → P a) : Leaves K P r := by
  cases leaves with
  | ok value heap => exact .ok (less _ value) heap
  | error heap => exact .error heap

theorem inFrame {owner : Owner} {bindings : Bindings} {x : Run α} {m : Machine}
    (leaves : Leaves K Q (x { m with scopes := m.scopes.openWith (some owner) bindings })) :
    Leaves K Q (Run.inFrame owner bindings x m) := by
  unfold Run.inFrame
  generalize x { m with scopes := m.scopes.openWith (some owner) bindings } = r at leaves
  cases leaves with
  | @ok a m' value heap =>
    dsimp only
    cases m'.scopes.close (some owner) with
    | ok scopes => exact .ok value heap
    | error fault => exact .error heap
  | @error s m' heap =>
    dsimp only
    cases m'.scopes.close (some owner) <;> exact .error heap

/-- A call without a result gives a fresh cell. -/
theorem leave (emptied : ∀ h, K h → K (h.newCell .empty).2) {V : Option CellRef → Prop}
    {r : EStateM.Result Stop Machine (Option CellRef)} (leaves : Leaves K V r) (site : Span) :
    Leaves K (fun _ => True) (Eval.leave site r) := by
  have heap := leaves.heap
  match r with
  | .ok (some c) m | .error (.ret c) m => exact .ok trivial heap
  | .ok none m => exact .ok trivial (emptied m.heap heap)
  | .error (.fault e) m | .error (.brk span) m | .error (.cont span) m | .error .exhausted m =>
    exact .error heap

end Leaves

end Run

namespace Plan

variable {α β : Type} {K : Heap → Prop} {Q : α → Prop} {P : β → Prop}

/-- Where the heap has a property, it does so before each deed of the plan and after all of them. If the plan
gives a value, it has another property. -/
def Keeps (K : Heap → Prop) (Q : α → Prop) (x : Plan α) : Prop :=
  ∀ m : Machine, K m.heap → (∀ d ∈ x.deeds m, K d.machine.heap) ∧ Leaves K Q (x.run m)

namespace Keeps

theorem weaken {P : α → Prop} {x : Plan α} (keeps : Keeps K Q x) (less : ∀ a, Q a → P a) : Keeps K P x := by
  intro m heap
  obtain ⟨passed, ended⟩ := keeps m heap
  exact ⟨passed, ended.weaken less⟩

theorem pure {a : α} (value : Q a) : Keeps K Q (.pure a) :=
  fun _ heap => ⟨List.forall_mem_nil _, .ok value heap⟩

theorem stop (s : Stop) : Keeps K Q (.stop s) := fun _ heap => ⟨List.forall_mem_nil _, .error heap⟩

theorem fail (span : Span) (fault : Fault) : Keeps K Q (Plan.fail span fault) := stop _

theorem act {a : Act α} (leaves : ∀ m : Machine, K m.heap → Leaves K Q (a.run m)) : Keeps K Q (.act a) := by
  refine fun m heap => ⟨fun d member => ?_, leaves m heap⟩
  rw [List.mem_singleton.mp member]
  exact heap

theorem bind {x : Plan α} {f : α → Plan β} (first : Keeps K Q x) (rest : ∀ a, Q a → Keeps K P (f a)) :
    Keeps K P (x >>= f) := by
  intro m heap
  obtain ⟨before, ended⟩ := first m heap
  change (∀ d ∈ x.deeds m ++ following (x.run m) fun a m => (f a).deeds m, K d.machine.heap) ∧
    Leaves K P (EStateM.bind x.run (fun a => (f a).run) m)
  unfold EStateM.bind
  generalize x.run m = r at ended ⊢
  cases ended with
  | @ok a m' value heap =>
    obtain ⟨after, ended⟩ := rest a value m' heap
    exact ⟨List.forall_mem_append.mpr ⟨before, after⟩, ended⟩
  | error heap => exact ⟨List.forall_mem_append.mpr ⟨before, List.forall_mem_nil _⟩, .error heap⟩

theorem read {span : Span} {kind : ReadKind} {V : CellRef → Prop}
    (understood : ∀ w (m : Machine), K m.heap → Leaves K V (understand span kind w m)) :
    Keeps K V (.read span kind) := by
  intro m heap
  change (∀ d ∈ following (showOutput span m) fun _ m => [.asked span kind m], K d.machine.heap) ∧
    Leaves K V (EStateM.bind (showOutput span) (fun _ => takeValue span kind) m)
  unfold EStateM.bind
  cases shown : showOutput span m with
  | error s m' =>
    have same : m' = _ := reached_of_shown shown
    exact ⟨List.forall_mem_nil _, .error (same ▸ heap)⟩
  | ok _ m' =>
    have same : m' = _ := reached_of_shown shown
    have heap : K m'.heap := same ▸ heap
    refine ⟨List.forall_mem_singleton.mpr heap, ?_⟩
    change Leaves K V (EStateM.bind (takeWord span _) (understand span kind) m')
    unfold EStateM.bind
    have taken := takeWord_heap span (Vocabulary.spelling kind) m'
    cases ended : takeWord span (Vocabulary.spelling kind) m' with
    | ok w n =>
      rw [ended] at taken
      exact understood w n (taken ▸ heap)
    | error s n =>
      rw [ended] at taken
      exact .error (taken ▸ heap)

theorem frame {x : Plan Unit} {V : Unit → Prop} (owner : Owner) (inside : Keeps K V x) :
    Keeps K V (.frame owner x) := by
  intro m heap
  obtain ⟨passed, ended⟩ := inside { m with scopes := m.scopes.openWith (some owner) [] } heap
  exact ⟨passed, ended.inFrame⟩

theorem round {x next : Plan Unit} (body : Keeps K (fun _ => True) x) (rest : Keeps K (fun _ => True) next) :
    Keeps K (fun _ => True) (.round x next) := by
  intro m heap
  obtain ⟨before, ended⟩ := body m heap
  have after {m' : Machine} (heap : K m'.heap) :
      (∀ d ∈ x.deeds m ++ next.deeds m', K d.machine.heap) ∧ Leaves K (fun _ => True) (next.run m') := by
    obtain ⟨passed, ended⟩ := rest m' heap
    exact ⟨List.forall_mem_append.mpr ⟨before, passed⟩, ended⟩
  have last : ∀ d ∈ x.deeds m ++ [], K d.machine.heap :=
    List.forall_mem_append.mpr ⟨before, List.forall_mem_nil _⟩
  change (∀ d ∈ x.deeds m ++ _, K d.machine.heap) ∧ Leaves K _ (Run.round x.run next.run m)
  unfold Run.round
  have heap := ended.heap
  generalize x.run m = r at heap ⊢
  match r with
  | .ok _ m' | .error (.cont _) m' => exact after heap
  | .error (.brk _) m' => exact ⟨last, .ok trivial heap⟩
  | .error (.ret _) m' | .error (.fault _) m' | .error .exhausted m' => exact ⟨last, .error heap⟩

theorem call (emptied : ∀ h, K h → K (h.newCell .empty).2) {limit : Nat} {site : Span} {c : CellRef}
    {arguments : Plan (List CellRef)} {code : Closure → Plan (Option CellRef)}
    {V : List CellRef → Prop} {W : Option CellRef → Prop} (given : Keeps K V arguments)
    (body : ∀ h f, K h → h.get c = .func f → Keeps K W (code f)) :
    Keeps K (fun _ => True) (.call limit site c arguments code) := by
  intro m heap
  have known (f : Closure) := body m.heap f heap
  rw [run_call]
  unfold deeds
  cases fetched : m.heap.get c with
  | func f =>
    obtain ⟨before, ended⟩ := given m heap
    dsimp only
    unfold EStateM.bind
    generalize arguments.run m = r at ended ⊢
    cases ended with
    | error heap => exact ⟨List.forall_mem_append.mpr ⟨before, List.forall_mem_nil _⟩, .error heap⟩
    | @ok cells m' value heap =>
      dsimp only [following]
      split
      next fits =>
        obtain ⟨after, ended⟩ := known f fetched (m'.enter f cells) heap
        have framed : Leaves K W (Run.inFrame ⟨.function, f.span, []⟩
            (f.captured.override (f.params.zip cells)) (code f).run { m' with calls := m'.calls + 1 }) :=
          .inFrame ended
        rw [invoke_enter _ fits.1 fits.2]
        exact ⟨List.forall_mem_append.mpr ⟨before, List.forall_mem_cons.mpr ⟨heap, after⟩⟩,
          framed.leave emptied site⟩
      next refused =>
        obtain ⟨fault, refuses⟩ := invoke_refuse (code f).run refused
        rw [refuses m' rfl]
        exact ⟨List.forall_mem_append.mpr ⟨before, List.forall_mem_nil _⟩, .error heap⟩
  | _ => exact ⟨List.forall_mem_nil _, .error heap⟩

theorem mapM' {f : α → Plan β} {xs : List α} (each : ∀ a ∈ xs, Keeps K P (f a)) :
    Keeps K (fun bs => ∀ b ∈ bs, P b) (xs.mapM' f) := by
  induction xs with
  | nil => exact pure (List.forall_mem_nil _)
  | cons x xs ih =>
    obtain ⟨first, others⟩ := List.forall_mem_cons.mp each
    refine bind first fun b value => bind (ih others) fun bs values => ?_
    exact pure (List.forall_mem_cons.mpr ⟨value, values⟩)

theorem forM {f : α → Plan Unit} {xs : List α} (each : ∀ a ∈ xs, Keeps K (fun _ => True) (f a)) :
    Keeps K (fun _ => True) (xs.forM f) := by
  induction xs with
  | nil => exact pure trivial
  | cons x xs ih =>
    obtain ⟨first, others⟩ := List.forall_mem_cons.mp each
    exact bind first fun _ _ => ih others

theorem foldlM {f : β → α → Plan β} {xs : List α} (each : ∀ b, P b → ∀ a ∈ xs, Keeps K P (f b a)) {b : β}
    (start : P b) : Keeps K P (xs.foldlM f b) := by
  induction xs generalizing b with
  | nil => exact pure start
  | cons x xs ih =>
    refine bind (each b start x List.mem_cons_self) fun b value => ih (fun b value a member => ?_) value
    exact each b value a (List.mem_cons_of_mem x member)

theorem forCount {body : Int64 → Plan Unit} (each : ∀ v, Keeps K (fun _ => True) (body v)) (count : Nat)
    (v : Int64) : Keeps K (fun _ => True) (Plan.forCount body count v) := by
  induction count generalizing v with
  | zero => exact pure trivial
  | succ count ih => exact round (each v) (ih (v + 1))

theorem whileHolds {condition : Plan Bool} {body : Plan Unit} (asked : Keeps K (fun _ => True) condition)
    (inside : Keeps K (fun _ => True) body) (rounds : Nat) :
    Keeps K (fun _ => True) (Plan.whileHolds condition body rounds) := by
  induction rounds with
  | zero => exact stop _
  | succ rounds ih =>
    refine bind asked fun holds _ => ?_
    cases holds with
    | false => exact pure trivial
    | true => exact round inside ih

end Keeps

end Plan

end CellScript
