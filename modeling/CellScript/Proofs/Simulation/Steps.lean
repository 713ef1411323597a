import CellScript.Proofs.Simulation

/-! The single steps of evaluation follow each other on alike machines. -/
namespace CellScript.Run.Follows

variable {σ : Code → Code → Prop} {R : Pairing} {v w : Value} {c d : CellRef}

theorem contents (paired : R.pairs c d) :
    Follows σ R (Value.Alike σ) (contents c) fun _ => Run.contents d :=
  step fun S above _ _ alike => ⟨S, le_rfl, .ok (alike.heap.contents (above _ _ paired)) alike⟩

theorem newCell (values : Value.Alike σ R v w) :
    Follows σ R Pairing.pairs (newCell v) fun _ => Run.newCell w := by
  refine step fun S above m n alike => ?_
  obtain ⟨T, more, paired, heaps⟩ := alike.heap.newCell (values.mono above)
  exact ⟨T, more, .ok paired (alike.withHeap more heaps)⟩

theorem setCell (paired : R.pairs c d) (values : Value.Alike σ R v w) :
    Follows σ R (fun _ => Eq) (setCell c v) fun _ => Run.setCell d w := by
  refine step fun S above m n alike => ⟨S, le_rfl, .ok rfl ?_⟩
  exact alike.withHeap le_rfl (alike.heap.set (above _ _ paired) (values.mono above))

theorem newArray {cs ds : List CellRef} (paired : List.Forall₂ R.pairs cs ds) :
    Follows σ R (Value.Alike σ) (newArray cs) fun _ => Run.newArray ds := by
  refine step fun S above m n alike => ?_
  have made := alike.heap.newArray (.ofList (paired.imp above))
  exact ⟨S, le_rfl, .ok made.1 (alike.withHeap le_rfl made.2)⟩

theorem newTuple (span : Span) {fs gs : List (Text × CellRef)} (fields : Bindings.Alike R fs gs) :
    Follows σ R (Value.Alike σ) (newTuple span fs) fun _ => Run.newTuple span gs := by
  unfold Run.newTuple
  obtain ⟨here, there⟩ | ⟨name, here, there⟩ := Tuple.Alike.ofFields fields
  · rw [here, there]
    refine step fun S above m n alike => ?_
    have made := alike.heap.newTuple (.ofDistinct (fields.mono above))
    exact ⟨S, le_rfl, .ok made.1 (alike.withHeap le_rfl made.2)⟩
  · rw [here, there]
    exact fail _ _

theorem slot (a : ArrayRef) (key : Int64) :
    Follows σ R Pairing.pairs (slot a key) fun _ => Run.slot a key := by
  refine step fun S above m n alike => ?_
  obtain ⟨T, more, paired, heaps⟩ := alike.heap.slot a key
  exact ⟨T, more, .ok paired (alike.withHeap more heaps)⟩

theorem onHeap (span : Span) {f g : Heap → Except Fault (Value × Heap)}
    (each : ∀ S, R ≤ S → ∀ h k, Heap.Alike σ S h k → Operators.Alike σ S (f h) (g k)) :
    Follows σ R (Value.Alike σ) (onHeap span f) fun _ => Run.onHeap span g := by
  refine step fun S above m n alike => ⟨S, le_rfl, ?_⟩
  have computed := each S above _ _ alike.heap
  unfold Run.onHeap
  generalize f m.heap = here at computed
  generalize g n.heap = there at computed
  cases computed with
  | ok values heaps => exact .ok values (alike.withHeap le_rfl heaps)
  | error fault => exact .error (.fault _) alike

theorem bindName (name : Text) (paired : R.pairs c d) :
    Follows σ R (fun _ => Eq) (bindName name c) fun _ => Run.bindName name d :=
  step fun S above _ _ alike =>
    ⟨S, le_rfl, .ok rfl (alike.withScopes (alike.scopes.bind (above _ _ paired) name))⟩

theorem lookup (span : Span) (name : Text) :
    Follows σ R Pairing.pairs (lookup span name) fun _ => Run.lookup span name := by
  refine step fun S above m n alike => ⟨S, le_rfl, ?_⟩
  change Ended σ S _ (locate span (m.scopes.lookup name) m) (locate span (n.scopes.lookup name) n)
  have found := alike.scopes.lookup? name
  unfold Scopes.lookup
  generalize m.scopes.lookup? name = here at found
  generalize n.scopes.lookup? name = there at found
  cases found with
  | some paired => exact .ok paired alike
  | none => exact .error (.fault _) alike

theorem operand (span : Span) (values : Value.Alike σ R v w) (op : Option (Word UnaryOp))
    (test : Option (Word TypeName)) :
    Follows σ R (Value.Alike σ) (locate span (Operators.operand op test v))
      fun _ => locate span (Operators.operand op test w) := by
  have computed := Operators.operand_rel values op test
  generalize Operators.operand op test v = here at computed
  generalize Operators.operand op test w = there at computed
  cases computed with
  | ok values => exact pure stable_values values
  | error fault => exact fail _ _

theorem print (span : Span) (values : Value.Alike σ R v w) :
    Follows σ R (fun _ => Eq) (print span v) fun _ => Run.print span w := by
  refine step fun S above m n alike => ⟨S, le_rfl, ?_⟩
  have text := Heap.render_eq alike.heap (values.mono above)
  have shown : Machine.Alike σ S { m with output := m.output.write (m.heap.render v) }
      { n with output := n.output.write (n.heap.render w) } :=
    { alike with output := by rw [alike.output, text] }
  have same := shown.output
  unfold Run.print
  dsimp only at same ⊢
  rw [← same]
  rw [← same] at shown
  split
  · exact .error (.fault _) shown
  · exact .ok rfl shown

theorem readWord (span : Span) (what : Text) :
    Follows σ R (fun _ => Eq) (readWord span what) fun _ => Run.readWord span what := by
  refine step fun S above m n alike => ⟨S, le_rfl, ?_⟩
  obtain ⟨h, s, calls, output, input⟩ := m
  obtain ⟨k, t, calls', output', input'⟩ := n
  obtain ⟨heaps, scopes, rfl, rfl, rfl⟩ := alike
  unfold Run.readWord
  dsimp only at heaps scopes ⊢
  split
  · exact .error (.fault _) ⟨heaps, scopes, rfl, rfl, rfl⟩
  · split
    · exact .ok rfl ⟨heaps, scopes, rfl, rfl, rfl⟩
    · split
      · exact .error (.fault _) ⟨heaps, scopes, rfl, rfl, rfl⟩
      · exact .error (.fault _) ⟨heaps, scopes, rfl, rfl, rfl⟩

theorem readValue (span : Span) (kind : Word ReadKind) :
    Follows σ R (Value.Alike σ) (readValue span kind) fun _ => Run.readValue span kind := by
  unfold Run.readValue
  cases kind with
  | other _ _ => exact fail _ _
  | known k =>
    refine bind (readWord span _) fun S above w w' same => ?_
    subst same
    cases k with
    | int =>
      cases Integer.read w with
      | ok n => exact pure stable_values (.int n)
      | error _ => exact fail _ _
    | real =>
      cases Real.read? w with
      | some x => exact pure stable_values (.real x)
      | none => exact fail _ _
    | string => exact pure stable_values (.string w)

theorem itemAt (span : Span) (position : Int64) (values : Value.Alike σ R v w) :
    Follows σ R Pairing.pairs (Eval.itemAt span position v) fun _ => Eval.itemAt span position w := by
  cases values with
  | tuple t =>
    refine step fun S above m n alike => ⟨S, le_rfl, ?_⟩
    have found := (alike.heap.tuples t).get? position
    have sizes : (m.heap.tuple t).size = (n.heap.tuple t).size := (alike.heap.tuples t).size
    rw [Eval.itemAt_tuple, Eval.itemAt_tuple, sizes]
    generalize (m.heap.tuple t).get? position = here at found
    generalize (n.heap.tuple t).get? position = there at found
    cases found with
    | some paired => exact .ok paired alike
    | none => exact .error (.fault _) alike
  | func closures => exact fail _ _
  | empty | int | real | bool | string | array => exact fail _ _

theorem itemNamed (span : Span) (name : Text) (values : Value.Alike σ R v w) :
    Follows σ R Pairing.pairs (Eval.itemNamed span name v) fun _ => Eval.itemNamed span name w := by
  cases values with
  | tuple t =>
    refine step fun S above m n alike => ⟨S, le_rfl, ?_⟩
    have found := (alike.heap.tuples t).field? name
    rw [Eval.itemNamed_tuple, Eval.itemNamed_tuple]
    generalize (m.heap.tuple t).field? name = here at found
    generalize (n.heap.tuple t).field? name = there at found
    cases found with
    | some paired => exact .ok paired alike
    | none => exact .error (.fault _) alike
  | func closures => exact fail _ _
  | empty | int | real | bool | string | array => exact fail _ _

theorem itemUnder (span keySpan : Span) (paired : R.pairs c d) (values : Value.Alike σ R v w) :
    Follows σ R Pairing.pairs (Eval.itemUnder span keySpan c v)
      fun _ => Eval.itemUnder span keySpan d w := by
  cases values with
  | array a =>
    unfold Eval.itemUnder
    refine bind (contents paired) fun S above key key' keys => ?_
    cases keys with
    | int k => exact slot a k
    | func closures => exact fail _ _
    | empty | real | bool | string | array | tuple => exact fail _ _
  | func closures => exact fail _ _
  | empty | int | real | bool | string | tuple => exact fail _ _

theorem combine (span : Span) (op : BinaryOp) (target : R.pairs c d) (values : Value.Alike σ R v w) :
    Follows σ R (fun _ => Eq)
      (do Run.setCell c (← Run.onHeap span (Operators.binary op (← Run.contents c) v)))
      (fun _ => do Run.setCell d (← Run.onHeap span (Operators.binary op (← Run.contents d) w))) := by
  refine bind (contents target) fun S above old old' olds => ?_
  refine bind (onHeap span fun T more h k heaps => ?_) fun T more new new' news => ?_
  · exact Operators.binary_rel heaps (olds.mono more) (values.mono (above.trans more)) op
  · exact setCell (more _ _ (above _ _ target)) news

theorem assignTo (span : Span) (target : R.pairs c d) (op : Word AssignOp)
    (values : Value.Alike σ R v w) :
    Follows σ R (fun _ => Eq) (Eval.assignTo span c op v) fun _ => Eval.assignTo span d op w := by
  cases op with
  | other _ _ => exact fail _ _
  | known op =>
    cases op with
    | set => exact setCell target values
    | add => exact combine span .add target values
    | subtract => exact combine span .subtract target values

theorem closure (span : Span) (params : List Text) {code code' : Code} (codes : σ code code') :
    Follows σ R Pairing.pairs (Eval.closure span params code)
      fun _ => Eval.closure span params code' := by
  refine step fun S above m n alike => ?_
  have captured := alike.scopes.snapshot
  obtain ⟨T, more, paired, heaps⟩ := alike.heap.newCell
    (v := .func ⟨span, params, code, m.scopes.snapshot⟩)
    (w := .func ⟨span, params, code', n.scopes.snapshot⟩) (.func ⟨rfl, rfl, codes, captured⟩)
  exact ⟨T, more, .ok paired (alike.withHeap more heaps)⟩

theorem knowItself (name : Text) (paired : R.pairs c d) :
    Follows σ R (fun _ => Eq) (Eval.knowItself name c) fun _ => Eval.knowItself name d := by
  unfold Eval.knowItself
  refine bind (contents paired) fun S above v w values => ?_
  have paired := above _ _ paired
  cases values with
  | func closures =>
    refine step fun T more m n alike => ⟨T, le_rfl, .ok rfl (alike.withHeap le_rfl ?_)⟩
    refine alike.heap.put (more _ _ paired) (.func ?_)
    exact { closures with
      captured := (closures.captured.mono more).set (more _ _ paired) name }
  | empty | int | real | bool | string | array | tuple => exact pure stable_eq rfl

end CellScript.Run.Follows
