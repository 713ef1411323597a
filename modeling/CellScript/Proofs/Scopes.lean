import CellScript.Proofs.Captures

/-! Scopes under any use. Frames are opened and closed in whatever order and by whomever: the global frame
keeps its names, closing takes away exactly the frames down to the innermost one of an owner, and the
snapshot, which goes from the outside inwards, agrees with looking up, which goes the other way. -/
namespace CellScript.Scopes

/-- What can be done with scopes. A frame may be opened with bindings, each name once. -/
inductive Use where
  | openFrame (owner : Option Owner)
  | openWith (owner : Option Owner) (bindings : Bindings) (once : bindings.Distinct)
  | close (owner : Option Owner)
  | bind (name : Text) (cell : CellRef)
  | reset

/-- The scopes after a use. If there is nothing to close, they stay as they are. -/
def after (s : Scopes) : Use → Scopes
  | .openFrame owner => s.openWith owner []
  | .openWith owner bindings _ => s.openWith owner bindings
  | .close owner =>
    match s.close owner with
    | .ok t => t
    | .error _ => s
  | .bind name cell => s.bind name cell
  | .reset => s.reset

variable {s t : Scopes} {owner : Option Owner} {fs rest : List Frame}

/-! ### Closing -/

theorem below?_eq_some : below? owner fs = some rest ↔
    ∃ above f, fs = above ++ f :: rest ∧ f.owner = owner ∧ ∀ g ∈ above, g.owner ≠ owner := by
  induction fs with
  | nil => simp [below?]
  | cons f fs ih =>
    unfold below?
    split
    next own =>
      constructor
      · rintro ⟨⟩
        exact ⟨[], f, rfl, own, List.forall_mem_nil _⟩
      · rintro ⟨above, g, split, -, others⟩
        cases above with
        | nil =>
          cases split
          rfl
        | cons g' above =>
          cases split
          exact absurd own (others f List.mem_cons_self)
    next other =>
      rw [ih]
      constructor
      · rintro ⟨above, g, rfl, own, others⟩
        exact ⟨f :: above, g, rfl, own, List.forall_mem_cons.mpr ⟨other, others⟩⟩
      · rintro ⟨above, g, split, own, others⟩
        cases above with
        | nil =>
          cases split
          exact absurd own other
        | cons g' above =>
          cases split
          exact ⟨above, g, rfl, own, fun h member => others h (List.mem_cons_of_mem _ member)⟩

theorem below?_eq_none : below? owner fs = none ↔ ∀ f ∈ fs, f.owner ≠ owner := by
  induction fs with
  | nil => simp [below?]
  | cons f fs ih =>
    rw [List.forall_mem_cons, ← ih, below?]
    split
    next own => simp [own]
    next other => simp [other]

/-- The frames determine the scopes. -/
theorem frames_eq_append {above : List Frame} {f : Frame} :
    s.frames = above ++ f :: t.frames ↔ s.inner = above ++ f :: t.inner ∧ s.globals = t.globals := by
  unfold frames
  rw [← List.cons_append, ← List.append_assoc]
  constructor
  · intro same
    obtain ⟨inner, last⟩ := List.append_inj' same rfl
    exact ⟨inner, congrArg Frame.bindings (List.cons.inj last).1⟩
  · rintro ⟨inner, globals⟩
    rw [inner, globals]

/-- Closing leaves what is below the innermost frame of the owner. -/
theorem close_eq_ok : s.close owner = .ok t ↔
    ∃ above f, (s.inner = above ++ f :: t.inner ∧ s.globals = t.globals) ∧ f.owner = owner ∧
      ∀ g ∈ above, g.owner ≠ owner := by
  unfold close
  constructor
  · intro closed
    split at closed
    next inner found =>
      cases closed
      obtain ⟨above, f, whole, own⟩ := below?_eq_some.mp found
      exact ⟨above, f, ⟨whole, rfl⟩, own⟩
    next => cases closed
  · rintro ⟨above, f, ⟨whole, globals⟩, own⟩
    rw [below?_eq_some.mpr ⟨above, f, whole, own⟩, globals]

theorem close_eq_error {fault : Fault} : s.close owner = .error fault ↔
    (∀ f ∈ s.inner, f.owner ≠ owner) ∧ fault = .noOpenScope owner := by
  rw [← below?_eq_none]
  unfold close
  cases below? owner s.inner <;> simp [eq_comm]

/-! ### The global frame -/

/-- A use gives a global name another cell only by binding it while no other frame is open. -/
theorem get?_globals_after (s : Scopes) (use : Use) (name : Text) :
    (s.after use).globals.get? name = s.globals.get? name ∨
      ∃ cell, use = .bind name cell ∧ s.inner = [] ∧ (s.after use).globals.get? name = some cell := by
  cases use with
  | openFrame owner => exact .inl rfl
  | openWith owner bindings once => exact .inl rfl
  | reset => exact .inl rfl
  | close owner =>
    left
    simp only [after]
    cases closed : s.close owner with
    | error fault => rfl
    | ok t =>
      obtain ⟨above, f, ⟨-, globals⟩, -⟩ := close_eq_ok.mp closed
      rw [globals]
  | bind other cell =>
    obtain ⟨globals, inner⟩ := s
    cases inner with
    | cons f fs => exact .inl rfl
    | nil =>
      by_cases own : name = other
      · subst own
        exact .inr ⟨cell, rfl, rfl, by simp [after, Scopes.bind, Bindings.get?_set]⟩
      · exact .inl (by simp [after, Scopes.bind, Bindings.get?_set, own])

/-- Global names stay bound, and to the same cells unless they are bound anew. -/
theorem get?_globals_foldl (uses : List Use) {name : Text} {cell : CellRef}
    (bound : s.globals.get? name = some cell) :
    ∃ cell', (uses.foldl after s).globals.get? name = some cell' ∧
      (cell' = cell ∨ .bind name cell' ∈ uses) := by
  induction uses generalizing s cell with
  | nil => exact ⟨cell, bound, .inl rfl⟩
  | cons use uses ih =>
    obtain same | ⟨anew, rfl, -, rebound⟩ := get?_globals_after s use name
    · obtain ⟨cell', later, from_⟩ := ih (same.trans bound)
      exact ⟨cell', later, from_.imp_right (List.mem_cons_of_mem _)⟩
    · obtain ⟨cell', later, rfl | member⟩ := ih rebound
      · exact ⟨cell', later, .inr List.mem_cons_self⟩
      · exact ⟨cell', later, .inr (List.mem_cons_of_mem _ member)⟩

/-! ### The two views -/

theorem Distinct.after (distinct : s.Distinct) (use : Use) : (s.after use).Distinct := by
  cases use with
  | openFrame owner => exact distinct.openWith owner List.nodup_nil
  | openWith owner bindings once => exact distinct.openWith owner once
  | bind name cell => exact distinct.bind name cell
  | reset => exact distinct.reset
  | close owner =>
    unfold Scopes.after
    dsimp only
    split
    next closed => exact distinct.close closed
    next => exact distinct

theorem Distinct.foldl (distinct : s.Distinct) (uses : List Use) : (uses.foldl Scopes.after s).Distinct := by
  induction uses generalizing s with
  | nil => exact distinct
  | cons use uses ih => exact ih (distinct.after use)

/-- However scopes have been used: further uses leave the global frame at the bottom, and its names bound,
to the same cells unless one of them binds the name anew; an owner can be closed exactly if a frame
above the global one is its own, which leaves the frames below the innermost such frame, and otherwise
nothing changes; and the snapshot has the bindings that looking up finds. -/
theorem scopes_keep_their_laws (uses : List Use) :
    let s := uses.foldl after empty
    (∀ more : List Use, let t := more.foldl after s
      t.frames.getLast? = some ⟨none, t.globals⟩ ∧
        ∀ name cell, s.globals.get? name = some cell →
          ∃ cell', t.globals.get? name = some cell' ∧ (cell' = cell ∨ .bind name cell' ∈ more)) ∧
    (∀ owner,
      ((∃ t, s.close owner = .ok t) ↔ ∃ f ∈ s.inner, f.owner = owner) ∧
      (∀ t, s.close owner = .ok t ↔ ∃ above f, s.frames = above ++ f :: t.frames ∧ f.owner = owner ∧
        ∀ g ∈ above, g.owner ≠ owner) ∧
      ∀ fault, s.close owner = .error fault →
        fault = .noOpenScope owner ∧ s.after (.close owner) = s) ∧
    ∀ name cell, s.snapshot.get? name = some cell ↔ s.lookup name = .ok cell := by
  intro s
  refine ⟨fun more => ⟨List.getLast?_concat, fun name cell => get?_globals_foldl more⟩,
    fun owner => ⟨?_, fun t => ?_, fun fault failed => ?_⟩, fun name cell => ?_⟩
  · constructor
    · rintro ⟨t, closed⟩
      obtain ⟨above, f, ⟨whole, -⟩, own, -⟩ := close_eq_ok.mp closed
      exact ⟨f, by simp [whole], own⟩
    · rintro ⟨f, member, own⟩
      cases closed : s.close owner with
      | ok t => exact ⟨t, rfl⟩
      | error fault => exact absurd own ((close_eq_error.mp closed).1 f member)
  · simp only [frames_eq_append]
    exact close_eq_ok
  · refine ⟨(close_eq_error.mp failed).2, ?_⟩
    simp only [after, failed]
  · have initial : Distinct empty := ⟨List.nodup_nil, List.forall_mem_nil _⟩
    have distinct : s.Distinct := initial.foldl uses
    rw [distinct.get?_snapshot, lookup]
    cases s.lookup? name <;> simp

end CellScript.Scopes
