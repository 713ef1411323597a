import Mathlib.Data.List.Nodup

/-! Searching lists of pairs for a first component. -/
namespace CellScript

variable {κ β : Type} [BEq κ] [LawfulBEq κ] {key : κ} {x : β} {pairs : List (κ × β)}

theorem lookup_cons_eq [DecidableEq κ] (e : κ × β) (pairs : List (κ × β)) (key : κ) :
    (e :: pairs).lookup key = if key = e.1 then some e.2 else pairs.lookup key := by
  rw [List.lookup_cons]
  by_cases same : key = e.1
  · rw [if_pos same, beq_iff_eq.mpr same]
  · rw [if_neg same, beq_false_of_ne same]

/-- Where no first component occurs twice, a search finds exactly what the list has. -/
theorem lookup_eq_some_iff_mem (distinct : (pairs.map (·.1)).Nodup) :
    pairs.lookup key = some x ↔ (key, x) ∈ pairs := by
  rw [List.lookup_eq_some_iff]
  constructor
  · rintro ⟨before, after, rfl, -⟩
    exact List.mem_append_right before List.mem_cons_self
  · intro member
    obtain ⟨before, after, rfl⟩ := List.append_of_mem member
    refine ⟨before, after, rfl, fun e earlier => bne_iff_ne.mpr ?_⟩
    rintro rfl
    rw [List.map_append, List.map_cons] at distinct
    exact (List.nodup_append.mp distinct).2.2 e.1 (List.mem_map_of_mem earlier) e.1
      List.mem_cons_self rfl

end CellScript
