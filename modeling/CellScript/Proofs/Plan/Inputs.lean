import CellScript.Proofs.Plan.Laws
import CellScript.Proofs.WordReader

/-! Inputs along a plan. Nothing but a read looks at the input or changes it, so the words that a plan is
given come from its input one after the other. -/
namespace CellScript

open Run

namespace Run

variable {α : Type}

/-- A step that leaves the input as it is. -/
def Unread (x : Run α) : Prop := ∀ m, (reached (x m)).input = m.input

theorem Inward.unread {x : Run α} (inward : Inward x) : Unread x := by
  intro m
  obtain ⟨r, h, ends⟩ := inward m.scopes m.heap
  have ends : x m = settle m h r := ends m.calls m.output m.input
  rw [ends]
  cases r <;> rfl

theorem input_takeWord (span : Span) (what : Text) (m : Machine) :
    (reached (takeWord span what m)).input = m.input.read.2 := by
  unfold takeWord
  dsimp only
  split
  · rfl
  · split <;> rfl

theorem input_takeValue (span : Span) (kind : ReadKind) (m : Machine) :
    (reached (takeValue span kind m)).input = m.input.read.2 := by
  have word := input_takeWord span (Vocabulary.spelling kind) m
  change (reached (EStateM.bind (takeWord span _) (understand span kind) m)).input = _
  unfold EStateM.bind
  cases taken : takeWord span (Vocabulary.spelling kind) m with
  | error stop m' =>
    rw [taken] at word
    exact word
  | ok w m' =>
    rw [taken] at word
    exact ((Inward.understand span kind w).unread m').trans word

end Run

theorem Act.unread {α : Type} (a : Act α) : Unread a.run := by
  induction a using Act.inward_cases with
  | inward a inward => exact inward.unread
  | bind name c => exact fun _ => rfl
  | declare name span params code =>
    intro m
    rw [run_declareFunction]
    rfl
  | print span v =>
    intro m
    change (reached (if (m.output.write (m.heap.render v)).failed then _ else _)).input = _
    split <;> rfl

/-- What the input gave, if it was asked. -/
def Deed.received? : Deed → Option (Except ReadStop Text)
  | .asked _ _ m => some m.input.read.1
  | .act .. | .entered .. => none

namespace Plan

variable {α : Type}

/-- What a plan is given by the input, in order. -/
def received (x : Plan α) (m : Machine) : List (Except ReadStop Text) := (x.deeds m).filterMap Deed.received?

/-- What holds of the words received and the input, and still does after one more read, holds along every
plan. -/
theorem law_of_input {J : List (Except ReadStop Text) → WordReader → Prop}
    (read : ∀ {rs r}, J rs r → J (rs ++ [r.read.1]) r.read.2) :
    Law fun past m => J (past.filterMap Deed.received?) m.input where
  act {_ past m} a holds := by
    rw [a.unread m, List.filterMap_append]
    exact (List.append_nil _).symm ▸ holds
  unread {past m m' _ _} holds shown := by
    have same : m' = _ := reached_of_shown shown
    exact same ▸ holds
  read {past m m' span} kind holds shown := by
    have same : m' = _ := reached_of_shown shown
    subst same
    rw [input_takeValue, List.filterMap_append]
    exact read holds
  enter {past _ _ _ _ _ _} _ _ _ holds _ := by
    rw [List.filterMap_append]
    exact (List.append_nil _).symm ▸ holds
  opened _ holds := holds
  closed holds _ := holds
  counted _ holds := holds
  emptied holds := holds

/-- A plan that starts at an editor gets the words of its lines. -/
theorem fed (x : Plan α) {m : Machine} {e : Editor} (input : m.input = .ofSource (.editor e []))
    (short : ∀ t, .text t ∈ e.upcoming → t.length < WordReader.maxSize) :
    WordReader.Fed e (x.received m) (reached (x.run m)).input := by
  have law := law_of_input (J := WordReader.Fed e) (·.read short)
  have start : WordReader.Fed e (([] : List Deed).filterMap Deed.received?) m.input :=
    input ▸ WordReader.fed_ofSource e
  exact law.run x start

/-- Whatever its reads give, a plan leaves the editor at the same or a later point. -/
theorem behind (x : Plan α) {m : Machine} {e : Editor} (behind : m.input.source.Behind e) :
    (reached (x.run m)).input.source.Behind e := by
  have law := law_of_input (J := fun _ r => r.source.Behind e) (WordReader.behind_next · _)
  exact @Law.run α _ [] m law x behind

end Plan

theorem Eval.input_conclude (r : EStateM.Result Stop Machine Unit) :
    (conclude r).2.input = (reached r).input := by
  match r with
  | .ok _ _ | .error (.ret _) _ | .error (.fault _) _ | .error (.brk _) _ | .error (.cont _) _
  | .error .exhausted _ => rfl

end CellScript
