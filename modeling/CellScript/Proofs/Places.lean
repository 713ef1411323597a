import CellScript.Span
import Mathlib.Data.List.Induction
import Mathlib.Data.Prod.Lex
import Mathlib.Order.Basic

/-! Places in a source, in order. The place behind a text is told by its newlines and by the bytes since
the last one, and what a span covers are the bytes from its start to its end. -/
namespace CellScript

namespace Position

/-- Line by line, and within a line by the column. -/
instance : LinearOrder Position :=
  LinearOrder.lift' (fun p => toLex (p.line, p.column)) (by
    rintro ⟨l, c⟩ ⟨l', c'⟩ same
    simpa using same)

theorem lt_iff {p q : Position} : p < q ↔ p.line < q.line ∨ p.line = q.line ∧ p.column < q.column :=
  Prod.Lex.lt_iff

theorem after_cons (p : Position) (b : UInt8) (t : Text) : p.after (b :: t) = (p.next b).after t := rfl

/-- The place behind a text: one line more than it has newlines, one column more than it has bytes since
the last of them. -/
def behind (t : Text) : Position := ⟨1 + t.count 10, 1 + (t.reverse.takeWhile (· != 10)).length⟩

theorem after_origin (t : Text) : origin.after t = behind t := by
  induction t using List.reverseRecOn with
  | nil => rfl
  | append_singleton t b ih =>
    rw [after_append, ih]
    by_cases newline : b = 10
    · simp [after, next, behind, newline]
      omega
    · simp [after, next, behind, newline]
      omega

theorem after_behind (s t : Text) : (behind s).after t = behind (s ++ t) := by
  rw [← after_origin, ← after_origin, after_append]

theorem behind_snoc (t : Text) {b : UInt8} (same : b ≠ 10) :
    behind (t ++ [b]) = ⟨(behind t).line, (behind t).column + 1⟩ := by
  rw [← after_behind, after_cons, after_nil, next, if_neg same]

theorem lt_next (p : Position) (b : UInt8) : p < p.next b := by
  rw [lt_iff]
  unfold next
  split
  · exact .inl (Int.lt_succ _)
  · exact .inr ⟨rfl, Int.lt_succ _⟩

theorem le_after (p : Position) (t : Text) : p ≤ p.after t := by
  induction t generalizing p with
  | nil => exact le_rfl
  | cons b t ih => exact (p.lt_next b).le.trans (ih (p.next b))

theorem behind_le (s t : Text) : behind s ≤ behind (s ++ t) := by
  rw [← after_behind]
  exact le_after _ t

end Position

namespace Span

/-- The bytes that a span covers of a text which starts at the given place. -/
def coveredFrom (s : Span) : Position → Text → Text
  | _, [] => []
  | p, b :: t =>
    if s.start ≤ p ∧ p < s.stop then b :: coveredFrom s (p.next b) t else coveredFrom s (p.next b) t

/-- The bytes of a source that a span covers. -/
def covered (s : Span) (source : Text) : Text := s.coveredFrom .origin source

variable {s : Span} {p : Position} {t u : Text}

theorem coveredFrom_before (before : p.after t ≤ s.start) :
    s.coveredFrom p (t ++ u) = s.coveredFrom (p.after t) u := by
  induction t generalizing p with
  | nil => rfl
  | cons b t ih =>
    have outside : p < s.start := (p.lt_next b).trans_le (((p.next b).le_after t).trans before)
    rw [List.cons_append, coveredFrom, if_neg fun inside => inside.1.not_gt outside]
    exact ih before

theorem coveredFrom_within (start : s.start ≤ p) (stop : p.after t ≤ s.stop) :
    s.coveredFrom p (t ++ u) = t ++ s.coveredFrom (p.after t) u := by
  induction t generalizing p with
  | nil => rfl
  | cons b t ih =>
    have inside : p < s.stop := (p.lt_next b).trans_le (((p.next b).le_after t).trans stop)
    rw [List.cons_append, coveredFrom, if_pos ⟨start, inside⟩, ih (start.trans (p.lt_next b).le) stop]
    rfl

theorem coveredFrom_behind (passed : s.stop ≤ p) : s.coveredFrom p t = [] := by
  induction t generalizing p with
  | nil => rfl
  | cons b t ih =>
    rw [coveredFrom, if_neg fun inside => inside.2.not_ge passed]
    exact ih (passed.trans (p.lt_next b).le)

/-- The span from behind one text to behind a longer one covers what the longer one has more. -/
theorem covered_behind (s t u : Text) :
    covered ⟨.behind s, .behind (s ++ t)⟩ (s ++ t ++ u) = t := by
  rw [covered, List.append_assoc, coveredFrom_before, coveredFrom_within, coveredFrom_behind, List.append_nil]
  all_goals simp only [Position.after_origin, Position.after_behind, le_refl]

end Span

end CellScript
