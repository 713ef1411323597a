import CellScript.Proofs.Alike.Operators
import CellScript.Proofs.Fuel

/-! Steps that follow each other. One step runs under a fixed bound, the other under every bound
that is large enough, and from alike machines both end alike. The rules below build such facts
along the combinators from which evaluation is made. -/
namespace CellScript

variable {σ : Code → Code → Prop} {R S : Pairing} {α β γ δ : Type}

structure Machine.Alike (σ : Code → Code → Prop) (R : Pairing) (m n : Machine) : Prop where
  heap : Heap.Alike σ R m.heap n.heap
  scopes : Scopes.Alike R m.scopes n.scopes
  calls : m.calls = n.calls
  output : m.output = n.output
  input : m.input = n.input

namespace Machine.Alike

variable {m n : Machine}

theorem flip (alike : Machine.Alike σ R m n) : Machine.Alike (Function.swap σ) R.flip n m where
  heap := alike.heap.flip
  scopes := alike.scopes.flip
  calls := alike.calls.symm
  output := alike.output.symm
  input := alike.input.symm

theorem withHeap (alike : Machine.Alike σ R m n) (more : R ≤ S) {h k : Heap}
    (heaps : Heap.Alike σ S h k) : Machine.Alike σ S { m with heap := h } { n with heap := k } where
  heap := heaps
  scopes := alike.scopes.mono more
  calls := alike.calls
  output := alike.output
  input := alike.input

theorem withScopes (alike : Machine.Alike σ R m n) {s t : Scopes} (scopes : Scopes.Alike R s t) :
    Machine.Alike σ R { m with scopes := s } { n with scopes := t } where
  heap := alike.heap
  scopes := scopes
  calls := alike.calls
  output := alike.output
  input := alike.input

end Machine.Alike

namespace Run

/-- The same way to stop. An exhausted bound is like nothing. -/
inductive StopAlike (R : Pairing) : Stop → Stop → Prop where
  | brk (span : Span) : StopAlike R (.brk span) (.brk span)
  | cont (span : Span) : StopAlike R (.cont span) (.cont span)
  | ret {c d : CellRef} (paired : R.pairs c d) : StopAlike R (.ret c) (.ret d)
  | fault (e : RuntimeError) : StopAlike R (.fault e) (.fault e)

/-- Steps that ended alike, with values that `Q` relates. -/
inductive Ended (σ : Code → Code → Prop) (R : Pairing) (Q : Pairing → α → β → Prop) :
    EStateM.Result Stop Machine α → EStateM.Result Stop Machine β → Prop where
  | ok {a : α} {b : β} {m n : Machine} (values : Q R a b) (machines : Machine.Alike σ R m n) :
    Ended σ R Q (.ok a m) (.ok b n)
  | error {s t : Stop} {m n : Machine} (stops : StopAlike R s t)
      (machines : Machine.Alike σ R m n) : Ended σ R Q (.error s m) (.error t n)

/-- Every large enough bound gives the result. -/
def Settles (y : Nat → Run β) (n : Machine) (r : EStateM.Result Stop Machine β) : Prop :=
  ∃ bound, ∀ k, bound ≤ k → y k n = r

namespace Settles

theorem const (y : Run β) (n : Machine) : Settles (fun _ => y) n (y n) := ⟨0, fun _ _ => rfl⟩

theorem shift {y : Nat → Run β} {n : Machine} {r : EStateM.Result Stop Machine β}
    (settles : Settles (fun k => y (k + 1)) n r) : Settles y n r := by
  obtain ⟨bound, same⟩ := settles
  refine ⟨bound + 1, fun k enough => ?_⟩
  obtain ⟨k, rfl⟩ : ∃ i, k = i + 1 := ⟨k - 1, by omega⟩
  exact same k (by omega)

theorem bind_ok {y : Nat → Run β} {g : Nat → β → Run δ} {n n' : Machine} {b : β}
    {r : EStateM.Result Stop Machine δ} (first : Settles y n (.ok b n'))
    (rest : Settles (fun k => g k b) n' r) : Settles (fun k => y k >>= g k) n r := by
  obtain ⟨bound, same⟩ := first
  obtain ⟨bound', same'⟩ := rest
  refine ⟨max bound bound', fun k enough => ?_⟩
  change EStateM.bind (y k) (g k) n = r
  unfold EStateM.bind
  rw [same k (by omega)]
  exact same' k (by omega)

theorem bind_error {y : Nat → Run β} {g : Nat → β → Run δ} {n n' : Machine} {stop : Stop}
    (first : Settles y n (.error stop n')) : Settles (fun k => y k >>= g k) n (.error stop n') := by
  obtain ⟨bound, same⟩ := first
  refine ⟨bound, fun k enough => ?_⟩
  change EStateM.bind (y k) (g k) n = _
  unfold EStateM.bind
  rw [same k enough]

end Settles

/-- From machines that are alike under `R` or more, the first step runs out of its bound, or the
second one settles and ends alike. -/
def Follows (σ : Code → Code → Prop) (R : Pairing) (Q : Pairing → α → β → Prop) (x : Run α)
    (y : Nat → Run β) : Prop :=
  ∀ S, R ≤ S → ∀ m n, Machine.Alike σ S m n →
    (∃ m', x m = .error .exhausted m') ∨
      ∃ T, S ≤ T ∧ ∃ r, Settles y n r ∧ Ended σ T Q (x m) r

/-- A relation that stays when more cells are paired. -/
def Stable (Q : Pairing → α → β → Prop) : Prop := ∀ ⦃R S⦄, R ≤ S → ∀ ⦃a b⦄, Q R a b → Q S a b

theorem stable_pairs : Stable Pairing.pairs := fun _ _ more _ _ paired => more _ _ paired

theorem stable_values : Stable (Value.Alike σ) := fun _ _ more _ _ values => values.mono more

theorem stable_eq : Stable (fun _ => @Eq α) := fun _ _ _ _ _ same => same

theorem stable_option : Stable fun R => Option.Rel R.pairs := by
  intro R S more a b related
  cases related with
  | some paired => exact .some (more _ _ paired)
  | none => exact .none

theorem stable_fields :
    Stable fun R (x y : Text × CellRef) => x.1 = y.1 ∧ R.pairs x.2 y.2 :=
  fun _ _ more _ _ fields => ⟨fields.1, more _ _ fields.2⟩

theorem Stable.forall₂ {Q : Pairing → α → β → Prop} (stable : Stable Q) :
    Stable fun R => List.Forall₂ (Q R) :=
  fun _ _ more _ _ related => related.imp fun _ _ h => stable more h

namespace Follows

variable {Q : Pairing → α → β → Prop} {Q' : Pairing → γ → δ → Prop}

theorem exhausted (y : Nat → Run β) : Follows σ R Q (throw .exhausted) y :=
  fun _ _ m _ _ => .inl ⟨m, rfl⟩

theorem weaken {x : Run α} {y : Nat → Run β} (follows : Follows σ R Q x y) (more : R ≤ S) :
    Follows σ S Q x y :=
  fun T above => follows T (more.trans above)

theorem shift {x : Run α} {y : Nat → Run β} (follows : Follows σ R Q x fun k => y (k + 1)) :
    Follows σ R Q x y := by
  intro S above m n alike
  obtain out | ⟨T, more, r, settles, ended⟩ := follows S above m n alike
  · exact .inl out
  · exact .inr ⟨T, more, r, settles.shift, ended⟩

/-- Steps without a bound. -/
theorem step {x : Run α} {y : Run β} (each : ∀ S, R ≤ S → ∀ m n, Machine.Alike σ S m n →
    ∃ T, S ≤ T ∧ Ended σ T Q (x m) (y n)) : Follows σ R Q x fun _ => y := by
  intro S above m n alike
  obtain ⟨T, more, ended⟩ := each S above m n alike
  exact .inr ⟨T, more, y n, .const y n, ended⟩

theorem pure (stable : Stable Q) {a : α} {b : β} (values : Q R a b) :
    Follows σ R Q (Pure.pure a) fun _ => Pure.pure b :=
  step fun S above _ _ alike => ⟨S, le_rfl, .ok (stable above values) alike⟩

theorem throw {s t : Stop} (stops : ∀ S, R ≤ S → StopAlike S s t) :
    Follows σ R Q (throw s) fun _ => throw t :=
  step fun S above _ _ alike => ⟨S, le_rfl, .error (stops S above) alike⟩

theorem fail (span : Span) (fault : Fault) :
    Follows σ R Q (fail span fault) fun _ => Run.fail span fault :=
  throw fun _ _ => .fault _

theorem bind {x : Run α} {y : Nat → Run β} {f : α → Run γ} {g : Nat → β → Run δ}
    (first : Follows σ R Q x y)
    (rest : ∀ S, R ≤ S → ∀ a b, Q S a b → Follows σ S Q' (f a) fun k => g k b) :
    Follows σ R Q' (x >>= f) fun k => y k >>= g k := by
  intro S above m n alike
  change (∃ m', EStateM.bind x f m = _) ∨ ∃ T, S ≤ T ∧ ∃ r, _ ∧ Ended σ T Q' (EStateM.bind x f m) r
  unfold EStateM.bind
  obtain ⟨m', out⟩ | ⟨T, more, r, settles, ended⟩ := first S above m n alike
  · rw [out]
    exact .inl ⟨m', rfl⟩
  · generalize x m = left at ended
    cases ended with
    | error stops machines => exact .inr ⟨T, more, _, settles.bind_error, .error stops machines⟩
    | ok values machines =>
      obtain out | ⟨U, more', r', settles', ended'⟩ :=
        rest T (above.trans more) _ _ values T le_rfl _ _ machines
      · exact .inl out
      · exact .inr ⟨U, more.trans more', r', settles.bind_ok settles', ended'⟩

theorem mapM (stable : Stable Q') {P : α → β → Prop} {xs : List α} {ys : List β}
    (related : List.Forall₂ P xs ys) {f : α → Run γ} {g : Nat → β → Run δ}
    (each : ∀ a b, P a b → Follows σ R Q' (f a) fun k => g k b) :
    Follows σ R (fun R => List.Forall₂ (Q' R)) (xs.mapM f) fun k => ys.mapM (g k) := by
  induction related generalizing R with
  | nil => exact pure stable.forall₂ .nil
  | cons head _ ih =>
    simp only [List.mapM_cons]
    refine bind (each _ _ head) fun S above c d values => ?_
    refine bind (ih fun a b h => (each a b h).weaken above) fun T above cs ds rest => ?_
    exact pure stable.forall₂ (.cons (stable above values) rest)

theorem forM {P : α → β → Prop} {xs : List α} {ys : List β} (related : List.Forall₂ P xs ys)
    {f : α → Run Unit} {g : Nat → β → Run Unit}
    (each : ∀ a b, P a b → Follows σ R (fun _ => Eq) (f a) fun k => g k b) :
    Follows σ R (fun _ => Eq) (xs.forM f) fun k => ys.forM (g k) := by
  induction related generalizing R with
  | nil => exact pure stable_eq rfl
  | cons head _ ih =>
    exact bind (each _ _ head) fun S above _ _ _ => ih fun a b h => (each a b h).weaken above

theorem foldlM {P : α → β → Prop} {xs : List α} {ys : List β} (related : List.Forall₂ P xs ys)
    (stable : Stable Q') {f : γ → α → Run γ} {g : Nat → δ → β → Run δ}
    (each : ∀ S, R ≤ S → ∀ c d a b, Q' S c d → P a b → Follows σ S Q' (f c a) fun k => g k d b)
    {c : γ} {d : δ} (start : Q' R c d) :
    Follows σ R Q' (xs.foldlM f c) fun k => ys.foldlM (g k) d := by
  induction related generalizing R c d with
  | nil => exact pure stable start
  | cons head _ ih =>
    exact bind (each R le_rfl c d _ _ start head) fun S above c d values =>
      ih (fun T more => each T (above.trans more)) values

theorem inFrame {x : Run α} {y : Nat → Run β} (owner : Owner) {b d : Bindings}
    (bindings : Bindings.Alike R b d) (inside : Follows σ R Q x y) :
    Follows σ R Q (inFrame owner b x) fun k => Run.inFrame owner d (y k) := by
  intro S above m n alike
  have opened := alike.withScopes (alike.scopes.openWith (bindings.mono above) (some owner))
  obtain ⟨m', out⟩ | ⟨T, more, r, ⟨bound, settles⟩, ended⟩ := inside S above _ _ opened
  · left
    unfold Run.inFrame
    rw [out]
    dsimp only
    cases m'.scopes.close (some owner) with
    | ok scopes => exact ⟨_, rfl⟩
    | error fault => exact ⟨_, rfl⟩
  · right
    refine ⟨T, more, Run.inFrame owner d (fun _ => r) n, ⟨bound, fun k enough => ?_⟩, ?_⟩
    · change Run.inFrame owner d (y k) n = _
      unfold Run.inFrame
      rw [settles k enough]
    · unfold Run.inFrame
      generalize x { m with scopes := m.scopes.openWith (some owner) b } = left at ended
      cases ended with
      | ok values machines =>
        dsimp only
        obtain ⟨s, t, here, there, scopes⟩ | ⟨fault, here, there⟩ :=
          machines.scopes.close (some owner)
        · rw [here, there]
          exact .ok values (machines.withScopes scopes)
        · rw [here, there]
          exact .error (.fault _) machines
      | error stops machines =>
        dsimp only
        obtain ⟨s, t, here, there, scopes⟩ | ⟨fault, here, there⟩ :=
          machines.scopes.close (some owner)
        · rw [here, there]
          exact .error stops (machines.withScopes scopes)
        · rw [here, there]
          exact .error stops machines

theorem asCall {x : Run (Option CellRef)} {y : Nat → Run (Option CellRef)}
    (inside : Follows σ R (fun R => Option.Rel R.pairs) x y) (site : Span) :
    Follows σ R Pairing.pairs (Eval.asCall site x) fun k => Eval.asCall site (y k) := by
  intro S above m n alike
  have opened : Machine.Alike σ S { m with calls := m.calls + 1 } { n with calls := n.calls + 1 } :=
    { alike with calls := congrArg (· + 1) alike.calls }
  have left {T : Pairing} {m n : Machine} (machines : Machine.Alike σ T m n) :
      Machine.Alike σ T { m with calls := m.calls - 1 } { n with calls := n.calls - 1 } :=
    { machines with calls := congrArg (· - 1) machines.calls }
  simp only [Eval.asCall_apply]
  obtain ⟨m', out⟩ | ⟨T, more, r, ⟨bound, settles⟩, ended⟩ := inside S above _ _ opened
  · rw [out]
    exact .inl ⟨_, rfl⟩
  · right
    have settled : Settles (fun k => Eval.asCall site (y k)) n (Eval.leave site r) := by
      refine ⟨bound, fun k enough => ?_⟩
      change Eval.asCall site (y k) n = _
      rw [Eval.asCall_apply, settles k enough]
    generalize x { m with calls := m.calls + 1 } = ends at ended
    cases ended with
    | ok values machines =>
      cases values with
      | some paired => exact ⟨T, more, _, settled, .ok paired (left machines)⟩
      | none =>
        obtain ⟨U, more', paired, heaps⟩ := (left machines).heap.newCell .empty
        exact ⟨U, more.trans more', _, settled, .ok paired ((left machines).withHeap more' heaps)⟩
    | error stops machines =>
      cases stops with
      | brk span => exact ⟨T, more, _, settled, .error (.fault _) (left machines)⟩
      | cont span => exact ⟨T, more, _, settled, .error (.fault _) (left machines)⟩
      | ret paired => exact ⟨T, more, _, settled, .ok paired (left machines)⟩
      | fault e => exact ⟨T, more, _, settled, .error (.fault _) (left machines)⟩

/-- The rest of a loop may need any larger bound. -/
theorem round {x next : Run Unit} {y next' : Nat → Run Unit}
    (body : Follows σ R (fun _ => Eq) x y) (rest : Follows σ R (fun _ => Eq) next next') :
    Follows σ R (fun _ => Eq) (round x next) fun k => Run.round (y k) (next' k) := by
  intro S above m n alike
  obtain ⟨m', out⟩ | ⟨T, more, r, ⟨bound, settles⟩, ended⟩ := body S above m n alike
  · left
    unfold Run.round
    rw [out]
    exact ⟨m', rfl⟩
  · have settled {q : EStateM.Result Stop Machine Unit} (bound' : Nat)
        (after : ∀ k, bound' ≤ k → Run.round (fun _ => r) (next' k) n = q) :
        Settles (fun k => Run.round (y k) (next' k)) n q := by
      refine ⟨max bound bound', fun k enough => ?_⟩
      have body := settles k (by omega)
      have rest := after k (by omega)
      change Run.round (y k) (next' k) n = q
      unfold Run.round at rest ⊢
      rw [body]
      exact rest
    have goesOn {m n : Machine} (machines : Machine.Alike σ T m n) :
        (∃ m', next m = .error .exhausted m') ∨ ∃ U, S ≤ U ∧ ∃ q bound',
          (∀ k, bound' ≤ k → next' k n = q) ∧ Ended σ U (fun _ => Eq) (next m) q := by
      obtain out | ⟨U, more', q, ⟨bound', settles'⟩, ended'⟩ :=
        rest T (above.trans more) m n machines
      · exact .inl out
      · exact .inr ⟨U, more.trans more', q, bound', settles', ended'⟩
    unfold Run.round at settled ⊢
    generalize x m = ends at ended
    cases ended with
    | ok _ machines =>
      obtain out | ⟨U, more', q, bound', settles', ended'⟩ := goesOn machines
      · exact .inl out
      · exact .inr ⟨U, more', q, settled bound' settles', ended'⟩
    | error stops machines =>
      cases stops with
      | cont span =>
        obtain out | ⟨U, more', q, bound', settles', ended'⟩ := goesOn machines
        · exact .inl out
        · exact .inr ⟨U, more', q, settled bound' settles', ended'⟩
      | brk span => exact .inr ⟨T, more, _, settled 0 fun _ _ => rfl, .ok rfl machines⟩
      | ret paired =>
        exact .inr ⟨T, more, _, settled 0 fun _ _ => rfl, .error (.ret paired) machines⟩
      | fault e =>
        exact .inr ⟨T, more, _, settled 0 fun _ _ => rfl, .error (.fault e) machines⟩

theorem forCount {f : Int64 → Run Unit} {g : Nat → Int64 → Run Unit}
    (each : ∀ v, Follows σ R (fun _ => Eq) (f v) fun k => g k v) (count : Nat) (v : Int64) :
    Follows σ R (fun _ => Eq) (forCount f count v) fun k => Run.forCount (g k) count v := by
  induction count generalizing v with
  | zero => exact pure stable_eq rfl
  | succ count ih => exact round (each v) (ih (v + 1))

/-- On the side that settles, the bound on rounds grows with the bound on nesting. -/
theorem whileHolds {c : Run Bool} {d : Nat → Run Bool} {x : Run Unit} {y : Nat → Run Unit}
    (condition : Follows σ R (fun _ => Eq) c d) (body : Follows σ R (fun _ => Eq) x y)
    (rounds : Nat) (less : Nat) :
    Follows σ R (fun _ => Eq) (whileHolds c x rounds)
      fun k => Run.whileHolds (d k) (y k) (k - less) := by
  induction rounds generalizing less with
  | zero => exact fun _ _ m _ _ => .inl ⟨m, rfl⟩
  | succ rounds ih =>
    have oneMore : Follows σ R (fun _ => Eq) (Run.whileHolds c x (rounds + 1))
        fun k => Run.whileHolds (d k) (y k) (k - (less + 1) + 1) := by
      simp only [whileHolds_succ]
      refine bind condition fun S above a b same => ?_
      subst same
      cases a with
      | false => exact pure stable_eq rfl
      | true => exact round (body.weaken above) ((ih (less + 1)).weaken above)
    intro S above m n alike
    obtain out | ⟨T, more, r, ⟨bound, settles⟩, ended⟩ := oneMore S above m n alike
    · exact .inl out
    · refine .inr ⟨T, more, r, ⟨max bound (less + 1), fun k enough => ?_⟩, ended⟩
      have same : k - less = k - (less + 1) + 1 := by omega
      change Run.whileHolds (d k) (y k) (k - less) n = r
      rw [same]
      exact settles k (by omega)

end Follows

end Run

end CellScript
