import CellScript.Proofs.Associations
import CellScript.Tuple

/-! What a list of fields becomes: the tuple that has them in order, or the first name that comes
again. -/
namespace CellScript.Tuple

variable {α : Type}

/-- The first name that was seen before. -/
def repeated? (seen : List Text) : List (Text × α) → Option Text
  | [] => none
  | (name, _) :: rest =>
    if name.isEmpty then repeated? seen rest
    else if seen.contains name then some name
    else repeated? (name :: seen) rest

def pushAll (t : Tuple α) (fields : List (Text × α)) : Tuple α :=
  fields.foldl (fun t (name, x) => t.push name x) t

/-- The tuple with the given fields, where no name occurs twice. -/
def ofDistinct (fields : List (Text × α)) : Tuple α := empty.pushAll fields

theorem position?_push (t : Tuple α) {name : Text} (named : name ≠ []) (x : α) (other : Text) :
    (t.push name x).position? other =
      (t.position? other).or (if other = name then some t.size else none) := by
  have given : name.isEmpty = false := by simpa using named
  unfold position? push
  rw [given, if_neg Bool.false_ne_true, List.lookup_append]
  rw [lookup_cons_eq, List.lookup_nil]

theorem add?_of_again {t : Tuple α} {name : Text} (named : name ≠ [])
    (again : (t.position? name).isSome = true) (x : α) : t.add? name x = .error name := by
  rw [add?, again, if_pos (by simpa using named)]

theorem add?_of_fresh {t : Tuple α} {name : Text} (fresh : name = [] ∨ t.position? name = none)
    (x : α) : t.add? name x = .ok (t.push name x) := by
  unfold add?
  rcases fresh with rfl | fresh
  · rfl
  · rw [fresh, if_neg (by simp)]

/-- Fields that are added one by one, where exactly the names in `seen` are there already. -/
theorem foldlM_add? (fields : List (Text × α)) {t : Tuple α} {seen : List Text}
    (known : ∀ name, name ≠ [] → ((t.position? name).isSome = true ↔ name ∈ seen)) :
    fields.foldlM (fun t (name, x) => t.add? name x) t =
      match repeated? seen fields with
      | some name => .error name
      | none => .ok (t.pushAll fields) := by
  induction fields generalizing t seen with
  | nil => rfl
  | cons field rest ih =>
    obtain ⟨name, x⟩ := field
    change (t.add? name x).bind (fun t => rest.foldlM (fun t (name, x) => t.add? name x) t) = _
    by_cases unnamed : name = []
    · subst unnamed
      exact ih known
    · have given : name.isEmpty = false := by simpa using unnamed
      rw [repeated?, given, if_neg Bool.false_ne_true]
      by_cases again : name ∈ seen
      · rw [add?_of_again unnamed ((known name unnamed).mpr again),
          if_pos (List.contains_iff_mem.mpr again)]
        rfl
      · have fresh : t.position? name = none := by
          simpa using mt (known name unnamed).mp again
        rw [add?_of_fresh (.inr fresh), if_neg (mt List.contains_iff_mem.mp again)]
        refine ih fun other named => ?_
        rw [position?_push t unnamed, Option.isSome_or, Bool.or_eq_true, known other named,
          List.mem_cons, or_comm]
        by_cases same : other = name <;> simp [same]

theorem ofFields_eq (fields : List (Text × α)) :
    ofFields fields = match repeated? [] fields with
      | some name => .error name
      | none => .ok (ofDistinct fields) :=
  foldlM_add? fields fun _ _ => ⟨nofun, fun member => absurd member List.not_mem_nil⟩

theorem ofFields_eq_ok {fields : List (Text × α)} {t : Tuple α} :
    ofFields fields = .ok t ↔ repeated? [] fields = none ∧ t = ofDistinct fields := by
  rw [ofFields_eq]
  cases repeated? [] fields with
  | none => exact ⟨fun same => ⟨rfl, (Except.ok.inj same).symm⟩, fun same => same.2 ▸ rfl⟩
  | some name => exact ⟨nofun, fun same => absurd same.1 nofun⟩

end CellScript.Tuple
