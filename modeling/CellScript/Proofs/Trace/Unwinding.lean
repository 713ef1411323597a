import CellScript.Proofs.Checking.Joining

/-! How a run unwinds. Where a traced evaluation stops with a fault, or with a jump out of a loop, its
moments come to the one at which that started, and nothing begins after it. On its way out the error
records the calls that it leaves, beginning with the innermost one. -/
namespace CellScript

open Run

variable {α β : Type}

namespace Moment

/-- Something begins to be evaluated. -/
def Begins (moment : Moment) : Prop := ∃ node m, moment.event = .began node m

/-- The places of the calls that are open, innermost first. -/
def sites (moment : Moment) : List Span := moment.active.map (·.site)

end Moment

/-- The moments come to one with the property, and nothing begins after it. -/
def ComesTo (moments : List Moment) (P : Moment → Prop) : Prop :=
  ∃ before moment after, moments = before ++ moment :: after ∧ P moment ∧
    ∀ later ∈ after, ¬ later.Begins

/-- The event that an error tells of: a step of a node fails, or the node is a `break` or `continue`
outside of a loop. -/
inductive Event.Fails (e : RuntimeError) : Event → Prop where
  | step {node : TreeNode} {m : Machine} (kind : e.fault.kind ≠ .controlFlowEscape) :
    Fails e (.raised node ⟨e.fault, e.span, []⟩ m)
  | brk {m m' : Machine} (fault : e.fault = .strayBreak) :
    Fails e (.ended (.statement (.brk e.span)) m m')
  | cont {m m' : Machine} (fault : e.fault = .strayContinue) :
    Fails e (.ended (.statement (.cont e.span)) m m')

/-- An error that leaves a call still tells of the same event. -/
theorem Event.Fails.leaveCall {e : RuntimeError} {event : Event} (fails : event.Fails e)
    (site : Span) : event.Fails (e.leaveCall site) := by
  have fault := e.leaveCall_fault site
  have span := e.leaveCall_span site
  generalize e.leaveCall site = e' at fault span ⊢
  obtain ⟨_, _, calls⟩ := e'
  obtain rfl := fault
  obtain rfl := span
  cases fails with
  | step kind => exact .step kind
  | brk fault => exact .brk fault
  | cont fault => exact .cont fault

/-- The calls that an error records of those that are open where it starts. A jump out of a loop that
is not there becomes an error only after it left the innermost call. -/
def RuntimeError.recorded (e : RuntimeError) (active : List Activation) : List Activation :=
  if e.fault.kind = .controlFlowEscape then active.tail else active

/-- The error has recorded the calls that it left. -/
def RuntimeError.Records (e : RuntimeError) (left : List Activation) : Prop :=
  e.calls = ((e.recorded left).map (·.site)).take RuntimeError.maxCalls

namespace Stop

/-- Whether the stop is a fault or a jump out of a loop. -/
def isAlarm : Stop → Bool
  | brk _ | cont _ | fault _ => true
  | ret _ | exhausted => false

/-- An evaluation inside the calls `active` stops because of what happened at the moment. -/
inductive StartsAt (active : List Activation) : Stop → Moment → Prop where
  | brk {span : Span} {m m' : Machine} :
    StartsAt active (.brk span) ⟨active, .ended (.statement (.brk span)) m m'⟩
  | cont {span : Span} {m m' : Machine} :
    StartsAt active (.cont span) ⟨active, .ended (.statement (.cont span)) m m'⟩
  | fault {e : RuntimeError} {left : List Activation} {event : Event} (fails : event.Fails e)
    (inside : e.fault.kind = .controlFlowEscape → left ≠ []) (records : e.Records left) :
    StartsAt active (.fault e) ⟨left ++ active, event⟩

end Stop

/-- Whatever stops the traced step, its moments come to where it started. -/
def Traced.Unwinds (active : List Activation) (t : Traced α) : Prop :=
  ∀ m stop m', t.run m = .error stop m' → stop.isAlarm = true →
    ComesTo (t.moments m) (stop.StartsAt active)

namespace ComesTo

variable {moments : List Moment} {P Q : Moment → Prop}

theorem mono (comes : ComesTo moments P) (more : ∀ moment, P moment → Q moment) :
    ComesTo moments Q := by
  obtain ⟨before, moment, after, split, holds, last⟩ := comes
  exact ⟨before, moment, after, split, more moment holds, last⟩

theorem single {moment : Moment} (holds : P moment) : ComesTo [moment] P :=
  ⟨[], moment, [], rfl, holds, fun _ none => absurd none List.not_mem_nil⟩

theorem prepend (earlier : List Moment) (comes : ComesTo moments P) :
    ComesTo (earlier ++ moments) P := by
  obtain ⟨before, moment, after, rfl, holds, last⟩ := comes
  exact ⟨earlier ++ before, moment, after, (List.append_assoc ..).symm, holds, last⟩

theorem append {later : List Moment} (comes : ComesTo moments P)
    (nothing : ∀ moment ∈ later, ¬ moment.Begins) : ComesTo (moments ++ later) P := by
  obtain ⟨before, moment, after, rfl, holds, last⟩ := comes
  refine ⟨before, moment, after ++ later, List.append_assoc .., holds, ?_⟩
  intro x member
  rcases List.mem_append.mp member with member | member
  · exact last x member
  · exact nothing x member

end ComesTo

theorem Traced.faults_not_begin (active : List Activation) (node : TreeNode)
    (r : EStateM.Result Stop Machine α) :
    ∀ moment ∈ Traced.faults active node r, ¬ moment.Begins := by
  intro moment member
  unfold Traced.faults at member
  split at member
  · obtain rfl := List.mem_singleton.mp member
    rintro ⟨_, _, ⟨⟩⟩
  · cases member

/-! ### Steps that fail by themselves -/

namespace Run

/-- A step that fails in its own place, for no jump out of a loop. -/
def Own (x : Run α) : Prop :=
  ∀ m stop m', x m = .error stop m' →
    ∃ fault span, stop = .fault ⟨fault, span, []⟩ ∧ fault.kind ≠ .controlFlowEscape

namespace Own

theorem of_ok {x : Run α} (ends : ∀ m, ∃ a m', x m = .ok a m') : Own x := by
  intro m stop m' stopped
  obtain ⟨a, m₁, ended⟩ := ends m
  rw [ended] at stopped
  cases stopped

theorem pure (a : α) : Own (Pure.pure a) := of_ok fun _ => ⟨_, _, rfl⟩

theorem fail {fault : Fault} (kind : fault.kind ≠ .controlFlowEscape) (span : Span) :
    Own (fail span fault : Run α) := by
  intro m stop m' stopped
  cases stopped
  exact ⟨fault, span, rfl, kind⟩

theorem bind {x : Run α} {f : α → Run β} (first : Own x) (rest : ∀ a, Own (f a)) :
    Own (x >>= f) := by
  intro m stop m' stopped
  change EStateM.bind x f m = _ at stopped
  unfold EStateM.bind at stopped
  cases ended : x m with
  | ok a m₁ =>
    rw [ended] at stopped
    exact rest a m₁ stop m' stopped
  | error s m₁ =>
    rw [ended] at stopped
    cases stopped
    exact first m stop m' ended

theorem locate {r : Except Fault α}
    (kinds : ∀ fault, r = .error fault → fault.kind ≠ .controlFlowEscape) (span : Span) :
    Own (locate span r) := by
  cases r with
  | ok a => exact pure a
  | error fault => exact fail (kinds fault rfl) span

theorem onHeap {f : Heap → Except Fault (Value × Heap)}
    (kinds : ∀ h fault, f h = .error fault → fault.kind ≠ .controlFlowEscape) (span : Span) :
    Own (onHeap span f) := by
  intro m stop m' stopped
  unfold Run.onHeap at stopped
  split at stopped
  · cases stopped
  next fault failed =>
    cases stopped
    exact ⟨fault, span, rfl, kinds _ _ failed⟩

theorem lookup (span : Span) (name : Text) : Own (lookup span name) := by
  refine bind (of_ok fun _ => ⟨_, _, rfl⟩) fun m => locate (fun fault failed => ?_) span
  unfold Scopes.lookup at failed
  split at failed
  · cases failed
  · cases failed
    exact FaultKind.noConfusion

theorem newTuple (span : Span) (fields : List (Text × CellRef)) : Own (newTuple span fields) := by
  unfold Run.newTuple
  split
  · exact of_ok fun _ => ⟨_, _, rfl⟩
  · exact fail FaultKind.noConfusion span

theorem print (span : Span) (v : Value) : Own (print span v) := by
  intro m stop m' stopped
  unfold Run.print at stopped
  dsimp only at stopped
  split at stopped
  · cases stopped
    exact ⟨_, _, rfl, FaultKind.noConfusion⟩
  · cases stopped

theorem readWord (span : Span) (what : Text) : Own (readWord span what) := by
  intro m stop m' stopped
  unfold Run.readWord at stopped
  dsimp only at stopped
  split at stopped
  · cases stopped
    exact ⟨_, _, rfl, FaultKind.noConfusion⟩
  · split at stopped
    · cases stopped
    · split at stopped
      · cases stopped
        exact ⟨_, _, rfl, FaultKind.noConfusion⟩
      · cases stopped
        exact ⟨_, _, rfl, FaultKind.noConfusion⟩

theorem readValue (span : Span) (kind : Word ReadKind) : Own (readValue span kind) := by
  cases kind with
  | other w _ => exact fail FaultKind.noConfusion span
  | known kind =>
    refine bind (readWord span _) fun w => ?_
    cases kind with
    | int =>
      dsimp only
      split
      · exact pure _
      · exact fail FaultKind.noConfusion span
    | real =>
      dsimp only
      split
      · exact pure _
      · exact fail FaultKind.noConfusion span
    | string => exact pure _

theorem itemAt (span : Span) (position : Int64) (v : Value) : Own (Eval.itemAt span position v) := by
  cases v with
  | tuple t =>
    refine bind (of_ok fun _ => ⟨_, _, rfl⟩) fun m => ?_
    dsimp only
    split
    · exact pure _
    · exact fail FaultKind.noConfusion span
  | _ => exact fail FaultKind.noConfusion span

theorem itemNamed (span : Span) (name : Text) (v : Value) : Own (Eval.itemNamed span name v) := by
  cases v with
  | tuple t =>
    refine bind (of_ok fun _ => ⟨_, _, rfl⟩) fun m => ?_
    split
    · exact pure _
    · exact fail FaultKind.noConfusion span
  | _ => exact fail FaultKind.noConfusion span

theorem itemUnder (span keySpan : Span) (key : CellRef) (v : Value) :
    Own (Eval.itemUnder span keySpan key v) := by
  cases v with
  | array a =>
    refine bind (of_ok fun _ => ⟨_, _, rfl⟩) fun w => ?_
    cases w with
    | int n => exact of_ok fun _ => ⟨_, _, rfl⟩
    | _ => exact fail FaultKind.noConfusion keySpan
  | _ => exact fail FaultKind.noConfusion span

end Own

end Run

theorem Fault.Joining.kind {joins : Prop} {fault : Fault} (joining : fault.Joining joins) :
    fault.kind ≠ .controlFlowEscape := by
  rcases joining with unchecked | ⟨-, name, rfl⟩
  · exact (Fault.kind_of_unchecked unchecked).1
  · exact FaultKind.noConfusion

/-- A fault of a result is one of those that it may have. -/
theorem Gives.fault {good : α → Prop} {bad : Fault → Prop} {r : Except Fault α} {fault : Fault}
    (gives : Gives good bad r) (failed : r = .error fault) : bad fault := by
  subst failed
  cases gives with
  | error allowed => exact allowed

namespace Run.Own

theorem reduce (assoc : Associativity) (span : Span) (first : Value) (ops : List (Word BinaryOp))
    (rest : List Value) : Own (Run.onHeap span (Operators.reduce assoc first (ops.zip rest))) := by
  refine onHeap (fun h fault failed => ?_) span
  have kept := Operators.reduce_kept (P := fun _ => True) (fun _ _ => trivial) assoc first ops rest h
    trivial fun _ _ => trivial
  exact (kept.fault failed).kind

theorem operand (op : Option (Word UnaryOp)) (test : Option (Word TypeName)) (span : Span)
    (v : Value) : Own (Run.locate span (Operators.operand op test v)) := by
  refine locate (fun fault failed => ?_) span
  have kept := Operators.operand_kept (P := fun _ => True) (fun _ _ => trivial) op test v trivial
  exact (Fault.kind_of_unchecked (kept.fault failed)).1

theorem binary (op : BinaryOp) (l r : Value) (span : Span) :
    Own (Run.onHeap span (Operators.binary op l r)) := by
  refine onHeap (fun h fault failed => ?_) span
  rcases Operators.binary_usual op l r h with usual | ⟨name, -, duplicate⟩
  · exact (Fault.kind_of_unchecked (usual.fault failed)).1
  · rw [duplicate] at failed
    cases failed
    exact FaultKind.noConfusion

theorem assignTo (span : Span) (target : CellRef) (op : Word AssignOp) (v : Value) :
    Own (Eval.assignTo span target op v) := by
  have old : Own (Run.contents target) := of_ok fun _ => ⟨_, _, rfl⟩
  have written (w : Value) : Own (Run.setCell target w) := of_ok fun _ => ⟨_, _, rfl⟩
  cases op with
  | other w _ => exact fail FaultKind.noConfusion span
  | known op =>
    cases op with
    | set => exact written v
    | add => exact bind old fun before => bind (binary .add before v span) written
    | subtract => exact bind old fun before => bind (binary .subtract before v span) written

end Run.Own

/-! ### Traced steps -/

namespace Traced.Unwinds

open Traced

variable {active : List Activation}

theorem quiet {x : Run α} (ends : ∀ m, ∃ a m', x m = .ok a m') : Unwinds active (quiet x) := by
  intro m stop m' stopped
  obtain ⟨a, m₁, ended⟩ := ends m
  change x m = _ at stopped
  rw [ended] at stopped
  cases stopped

theorem pure (a : α) : Unwinds active (Pure.pure a) := quiet fun _ => ⟨_, _, rfl⟩

theorem throw {stop : Stop} (silent : stop.isAlarm = false) :
    Unwinds active (Traced.quiet (throw stop) : Traced α) := by
  intro m stop' m' stopped alarm
  cases stopped
  rw [silent] at alarm
  cases alarm

/-- A fault that starts here has recorded no call yet. -/
theorem startsAt_raised {fault : Fault} (kind : fault.kind ≠ .controlFlowEscape) (span : Span)
    (node : TreeNode) (m : Machine) :
    (Stop.fault ⟨fault, span, []⟩).StartsAt active ⟨active, .raised node ⟨fault, span, []⟩ m⟩ := by
  refine @Stop.StartsAt.fault _ _ [] _ (.step kind) (fun escape => absurd escape kind) ?_
  rw [RuntimeError.Records, RuntimeError.recorded, if_neg kind]
  rfl

theorem own {x : Run α} (fails : x.Own) (node : TreeNode) : Unwinds active (own active node x) := by
  intro m stop m' stopped alarm
  obtain ⟨fault, span, rfl, kind⟩ := fails m stop m' stopped
  change ComesTo (faults active node (x m)) _
  change x m = _ at stopped
  rw [stopped]
  exact .single (startsAt_raised kind span node m')

theorem bind {t : Traced α} {g : α → Traced β} (first : Unwinds active t)
    (rest : ∀ a, Unwinds active (g a)) : Unwinds active (t >>= g) := by
  intro m stop m' stopped alarm
  change EStateM.bind t.run (fun a => (g a).run) m = _ at stopped
  change ComesTo (t.moments m ++ following (t.run m) fun a m => (g a).moments m) _
  unfold EStateM.bind at stopped
  cases ended : t.run m with
  | ok a m₁ =>
    rw [ended] at stopped
    exact (rest a m₁ stop m' stopped alarm).prepend _
  | error s m₁ =>
    rw [ended] at stopped
    cases stopped
    exact (first m stop m' ended alarm).append fun _ none => absurd none List.not_mem_nil

theorem mapM {g : α → Traced β} (each : ∀ a, Unwinds active (g a)) (xs : List α) :
    Unwinds active (xs.mapM' g) := by
  induction xs with
  | nil => exact pure []
  | cons a xs ih => exact bind (each a) fun b => bind ih fun bs => pure (b :: bs)

theorem forM {g : α → Traced Unit} (each : ∀ a, Unwinds active (g a)) (xs : List α) :
    Unwinds active (xs.forM g) := by
  induction xs with
  | nil => exact pure ()
  | cons a xs ih => exact bind (each a) fun _ => ih

theorem foldlM {g : β → α → Traced β} (each : ∀ b a, Unwinds active (g b a)) (xs : List α) (b : β) :
    Unwinds active (xs.foldlM g b) := by
  induction xs generalizing b with
  | nil => exact pure b
  | cons a xs ih => exact bind (each b a) ih

theorem during {t : Traced α} (inside : Unwinds active t) (node : TreeNode) :
    Unwinds active (during active node t) := by
  intro m stop m' stopped alarm
  refine (ComesTo.append (inside m stop m' stopped alarm) ?_).prepend [_]
  intro moment member
  obtain rfl := List.mem_singleton.mp member
  rintro ⟨_, _, ⟨⟩⟩

/-- A frame around a step. The step may be inside one more call than the frame; what it does to the
scopes lets the frame be closed. -/
theorem inFrame {inner : List Activation} {t : Traced α} (inside : Unwinds inner t)
    (grows : ∀ m : Machine, m.scopes.Grown (reached (t.run m)).scopes) (node : TreeNode)
    (owner : Owner) (bindings : Bindings) : Unwinds inner (Traced.inFrame active node owner bindings t) := by
  intro m stop m' stopped alarm
  change Run.inFrame owner bindings t.run m = _ at stopped
  simp only [Traced.inFrame]
  unfold Run.inFrame at stopped
  have started := inside { m with scopes := m.scopes.openWith (some owner) bindings }
  have closed := (grows { m with scopes := m.scopes.openWith (some owner) bindings }).close_top.1
  cases ended : t.run { m with scopes := m.scopes.openWith (some owner) bindings } with
  | ok a m₁ =>
    rw [ended] at stopped closed
    simp only [reached] at closed
    simp only [closed] at stopped
    cases stopped
  | error s m₁ =>
    rw [ended] at stopped closed
    simp only [reached] at closed
    simp only [closed] at stopped
    cases stopped
    refine ((started _ m₁ ended alarm).append ?_).append fun _ none => absurd none List.not_mem_nil
    intro moment member
    obtain rfl := List.mem_singleton.mp member
    rintro ⟨_, _, ⟨⟩⟩

/-- One more call that an error leaves is recorded as long as there is room. -/
theorem records_leaveCall {e : RuntimeError} {left : List Activation} (records : e.Records left)
    (inside : e.fault.kind = .controlFlowEscape → left ≠ []) (call : Activation) :
    (e.leaveCall call.site).Records (left ++ [call]) := by
  have more : e.recorded (left ++ [call]) = e.recorded left ++ [call] := by
    unfold RuntimeError.recorded
    split
    next escape => exact List.tail_append_of_ne_nil (inside escape)
    next => rfl
  have same : (e.leaveCall call.site).recorded = e.recorded := by
    funext active
    rw [RuntimeError.recorded, RuntimeError.leaveCall_fault]
    rfl
  unfold RuntimeError.Records at *
  rw [same, more, List.map_append, List.map_singleton]
  unfold RuntimeError.leaveCall
  split
  next room =>
    dsimp only
    rw [records] at room ⊢
    rw [List.length_take] at room
    have short : ((e.recorded left).map (·.site)).length < RuntimeError.maxCalls := by omega
    rw [List.take_of_length_le (Nat.le_of_lt short), List.take_of_length_le]
    rw [List.length_append, List.length_singleton]
    exact short
  next full =>
    rw [records, List.length_take] at full
    have long : RuntimeError.maxCalls ≤ ((e.recorded left).map (·.site)).length := by omega
    rw [records, List.take_append_of_le_length long]

theorem asCall {t : Traced (Option CellRef)} (call : Activation)
    (inside : Unwinds (call :: active) t) (node : TreeNode) :
    Unwinds active (asCall active node call.site t) := by
  intro m stop m' stopped alarm
  change Eval.asCall call.site t.run m = _ at stopped
  rw [Eval.asCall_apply] at stopped
  simp only [Traced.asCall]
  have started := inside { m with calls := m.calls + 1 }
  cases ended : t.run { m with calls := m.calls + 1 } with
  | ok result m₁ =>
    rw [ended] at stopped
    cases result <;> cases stopped
  | error s m₁ =>
    rw [ended] at stopped
    have comes := started s m₁ ended
    cases s with
    | ret c => cases stopped
    | exhausted =>
      cases stopped
      cases alarm
    | brk span =>
      cases stopped
      refine ((comes rfl).mono ?_).append (faults_not_begin active node _)
      rintro _ ⟨⟩
      exact @Stop.StartsAt.fault _ _ [call] _ (.brk rfl) (fun _ => List.cons_ne_nil _ _) rfl
    | cont span =>
      cases stopped
      refine ((comes rfl).mono ?_).append (faults_not_begin active node _)
      rintro _ ⟨⟩
      exact @Stop.StartsAt.fault _ _ [call] _ (.cont rfl) (fun _ => List.cons_ne_nil _ _) rfl
    | fault e =>
      cases stopped
      refine ((comes rfl).mono ?_).append fun _ none => absurd none List.not_mem_nil
      rintro _ (_ | _ | @⟨_, left, event, fails, inner, records⟩)
      rw [List.append_cons]
      refine .fault (fails.leaveCall call.site) (fun _ => ?_) (records_leaveCall records inner call)
      exact List.append_ne_nil_of_right_ne_nil _ (List.cons_ne_nil _ _)

theorem round {t next : Traced Unit} (body : Unwinds active t) (after : Unwinds active next) :
    Unwinds active (round t next) := by
  intro m stop m' stopped alarm
  change Run.round t.run next.run m = _ at stopped
  simp only [Traced.round]
  unfold Run.round at stopped
  cases ended : t.run m with
  | ok _ m₁ =>
    rw [ended] at stopped
    exact (after m₁ stop m' stopped alarm).prepend _
  | error s m₁ =>
    rw [ended] at stopped
    cases s with
    | cont span => exact (after m₁ stop m' stopped alarm).prepend _
    | brk span => cases stopped
    | ret c | exhausted | fault e =>
      cases stopped
      exact (body m _ m' ended alarm).append fun _ none => absurd none List.not_mem_nil

theorem forCount {g : Int64 → Traced Unit} (each : ∀ v, Unwinds active (g v)) (count : Nat)
    (v : Int64) : Unwinds active (forCount g count v) := by
  induction count generalizing v with
  | zero => exact pure ()
  | succ count ih => exact round (each v) (ih (v + 1))

theorem whileHolds {c : Traced Bool} {t : Traced Unit} (condition : Unwinds active c)
    (body : Unwinds active t) (rounds : Nat) : Unwinds active (whileHolds c t rounds) := by
  induction rounds with
  | zero => exact throw rfl
  | succ rounds ih =>
    refine bind condition fun holds => ?_
    split
    · exact round body ih
    · exact pure ()

end Traced.Unwinds

end CellScript
