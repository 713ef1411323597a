import CellScript.Machine
import Mathlib.Data.List.Forall2
import Mathlib.Order.Basic

/-! Machines that differ only in which cells they use and in the code of their functions. A pairing
says which cells stand for each other; cells outside it are garbage that nothing refers to. Every
operation on heaps and scopes keeps machines alike, under the same pairing or a larger one. -/
namespace CellScript

/-- Cells of two heaps that stand for each other, each for at most one. -/
structure Pairing where
  pairs : CellRef → CellRef → Prop
  left_unique : ∀ {c d e}, pairs c d → pairs c e → d = e
  right_unique : ∀ {c d e}, pairs c e → pairs d e → c = d

namespace Pairing

instance : Preorder Pairing where
  le R S := ∀ c d, R.pairs c d → S.pairs c d
  le_refl _ _ _ paired := paired
  le_trans _ _ _ first second c d paired := second c d (first c d paired)

/-- Every cell of the first `size` ones stands for itself. -/
def upTo (size : Nat) : Pairing where
  pairs c d := c = d ∧ c.index < size
  left_unique := fun first second => first.1.symm.trans second.1
  right_unique := fun first second => first.1.trans second.1.symm

/-- One more pair of cells that had no partner. -/
def extend (R : Pairing) (c d : CellRef) (left : ∀ x, ¬ R.pairs c x) (right : ∀ x, ¬ R.pairs x d) :
    Pairing where
  pairs x y := R.pairs x y ∨ x = c ∧ y = d
  left_unique := by
    rintro x y z (first | ⟨rfl, rfl⟩) (second | ⟨hx, rfl⟩)
    · exact R.left_unique first second
    · exact absurd (hx ▸ first) (left y)
    · exact absurd second (left z)
    · rfl
  right_unique := by
    rintro x y z (first | ⟨rfl, rfl⟩) (second | ⟨rfl, hz⟩)
    · exact R.right_unique first second
    · exact absurd (hz ▸ first) (right x)
    · exact absurd second (right y)
    · rfl

theorem le_extend {R : Pairing} {c d : CellRef} {left : ∀ x, ¬ R.pairs c x}
    {right : ∀ x, ¬ R.pairs x d} : R ≤ R.extend c d left right :=
  fun _ _ paired => .inl paired

/-- The same pairs seen from the other side. -/
def flip (R : Pairing) : Pairing where
  pairs c d := R.pairs d c
  left_unique := fun first second => R.right_unique first second
  right_unique := fun first second => R.left_unique first second

end Pairing

variable {σ : Code → Code → Prop} {R S : Pairing}

/-! ### Bindings -/

/-- The same names in the same order, bound to cells that stand for each other. -/
def Bindings.Alike (R : Pairing) : Bindings → Bindings → Prop :=
  List.Forall₂ fun e f => e.1 = f.1 ∧ R.pairs e.2 f.2

namespace Bindings.Alike

theorem mono (more : R ≤ S) {b d : Bindings} (alike : Bindings.Alike R b d) :
    Bindings.Alike S b d :=
  List.Forall₂.imp (fun _ _ h => ⟨h.1, more _ _ h.2⟩) alike

theorem get? {b d : Bindings} (alike : Bindings.Alike R b d) (name : Text) :
    Option.Rel R.pairs (b.get? name) (d.get? name) := by
  induction alike with
  | nil => exact .none
  | cons head _ ih =>
    rw [Bindings.get?_cons, Bindings.get?_cons, ← head.1]
    split
    · exact .some head.2
    · exact ih

theorem set {b d : Bindings} {c e : CellRef} (alike : Bindings.Alike R b d)
    (paired : R.pairs c e) (name : Text) :
    Bindings.Alike R (b.set name c) (d.set name e) := by
  induction alike with
  | nil => exact .cons ⟨rfl, paired⟩ .nil
  | cons head rest ih =>
    unfold Bindings.set
    rw [← head.1]
    split
    · exact .cons ⟨rfl, paired⟩ rest
    · exact .cons head ih

theorem override {b d top other : Bindings} (alike : Bindings.Alike R b d)
    (above : Bindings.Alike R top other) :
    Bindings.Alike R (b.override top) (d.override other) := by
  unfold Bindings.override
  induction above generalizing b d with
  | nil => exact alike
  | cons head rest ih =>
    simp only [List.foldl_cons, head.1]
    exact ih (alike.set head.2 _)

theorem zip {cs ds : List CellRef} (paired : List.Forall₂ R.pairs cs ds) (names : List Text) :
    Bindings.Alike R (names.zip cs) (names.zip ds) := by
  induction paired generalizing names with
  | nil => simp only [List.zip_nil_right]; exact .nil
  | cons head _ ih =>
    cases names with
    | nil => exact .nil
    | cons name names => exact .cons ⟨rfl, head⟩ (ih names)

theorem names {b d : Bindings} (alike : Bindings.Alike R b d) : b.map (·.1) = d.map (·.1) := by
  induction alike with
  | nil => rfl
  | cons head _ ih => simp only [List.map_cons, head.1, ih]

theorem flip {b d : Bindings} (alike : Bindings.Alike R b d) : Bindings.Alike R.flip d b :=
  List.Forall₂.flip (List.Forall₂.imp (fun _ _ h => ⟨h.1.symm, h.2⟩) alike)

end Bindings.Alike

/-! ### Scopes -/

/-- Frames of the same owners with alike bindings. -/
def Frame.Alike (R : Pairing) (f g : Frame) : Prop :=
  f.owner = g.owner ∧ Bindings.Alike R f.bindings g.bindings

structure Scopes.Alike (R : Pairing) (s t : Scopes) : Prop where
  globals : Bindings.Alike R s.globals t.globals
  inner : List.Forall₂ (Frame.Alike R) s.inner t.inner

namespace Scopes.Alike

variable {s t : Scopes}

theorem mono (more : R ≤ S) (alike : Scopes.Alike R s t) : Scopes.Alike S s t where
  globals := alike.globals.mono more
  inner := List.Forall₂.imp (fun _ _ h => ⟨h.1, h.2.mono more⟩) alike.inner

theorem openWith (alike : Scopes.Alike R s t) {b d : Bindings} (bindings : Bindings.Alike R b d)
    (owner : Option Owner) : Scopes.Alike R (s.openWith owner b) (t.openWith owner d) :=
  ⟨alike.globals, .cons ⟨rfl, bindings⟩ alike.inner⟩

theorem below? {fs gs : List Frame} (frames : List.Forall₂ (Frame.Alike R) fs gs)
    (owner : Option Owner) :
    Option.Rel (List.Forall₂ (Frame.Alike R)) (Scopes.below? owner fs) (Scopes.below? owner gs) := by
  induction frames with
  | nil => exact .none
  | cons head rest ih =>
    unfold Scopes.below?
    rw [← head.1]
    split
    · exact .some rest
    · exact ih

/-- Either both can close the owner's frame, or neither can, for the same reason. -/
theorem close (alike : Scopes.Alike R s t) (owner : Option Owner) :
    (∃ s' t', s.close owner = .ok s' ∧ t.close owner = .ok t' ∧ Scopes.Alike R s' t') ∨
      ∃ fault, s.close owner = .error fault ∧ t.close owner = .error fault := by
  have below := below? alike.inner owner
  unfold Scopes.close
  cases left : Scopes.below? owner s.inner with
  | none =>
    rw [left] at below
    cases right : Scopes.below? owner t.inner with
    | none => exact .inr ⟨_, rfl, rfl⟩
    | some gs => rw [right] at below; cases below
  | some fs =>
    rw [left] at below
    cases right : Scopes.below? owner t.inner with
    | none => rw [right] at below; cases below
    | some gs =>
      rw [right] at below
      cases below with
      | some frames => exact .inl ⟨_, _, rfl, rfl, alike.globals, frames⟩

theorem bind (alike : Scopes.Alike R s t) {c d : CellRef} (paired : R.pairs c d) (name : Text) :
    Scopes.Alike R (s.bind name c) (t.bind name d) := by
  obtain ⟨sg, si⟩ := s
  obtain ⟨tg, ti⟩ := t
  obtain ⟨globals, inner⟩ := alike
  dsimp only at globals inner
  cases inner with
  | nil => exact ⟨globals.set paired name, .nil⟩
  | cons head rest => exact ⟨globals, .cons ⟨head.1, head.2.set paired name⟩ rest⟩

theorem lookup? (alike : Scopes.Alike R s t) (name : Text) :
    Option.Rel R.pairs (s.lookup? name) (t.lookup? name) := by
  obtain ⟨sg, si⟩ := s
  obtain ⟨tg, ti⟩ := t
  obtain ⟨globals, inner⟩ := alike
  dsimp only at globals inner
  unfold Scopes.lookup?
  dsimp only
  induction inner with
  | nil => exact globals.get? name
  | @cons f g _ _ head _ ih =>
    have found := head.2.get? name
    simp only [List.findSome?_cons]
    cases left : f.bindings.get? name with
    | none =>
      rw [left] at found
      cases right : g.bindings.get? name with
      | none => exact ih
      | some d => rw [right] at found; cases found
    | some c =>
      rw [left] at found
      cases right : g.bindings.get? name with
      | none => rw [right] at found; cases found
      | some d => rw [right] at found; exact found

theorem snapshot (alike : Scopes.Alike R s t) : Bindings.Alike R s.snapshot t.snapshot := by
  obtain ⟨sg, si⟩ := s
  obtain ⟨tg, ti⟩ := t
  obtain ⟨globals, inner⟩ := alike
  dsimp only at globals inner
  unfold Scopes.snapshot
  dsimp only
  induction inner with
  | nil => exact globals
  | cons head _ ih => exact Bindings.Alike.override ih head.2

theorem reset (alike : Scopes.Alike R s t) : Scopes.Alike R s.reset t.reset :=
  ⟨alike.globals, .nil⟩

theorem flip (alike : Scopes.Alike R s t) : Scopes.Alike R.flip t s where
  globals := alike.globals.flip
  inner := List.Forall₂.flip (List.Forall₂.imp (fun _ _ h => ⟨h.1.symm, h.2.flip⟩) alike.inner)

end Scopes.Alike

end CellScript
