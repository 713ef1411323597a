import CellScript.Text

/-! Closed sets of words. Trees built by hand may carry a word outside the set, and a `Word`
keeps such a word apart from the known ones, so that every text is the spelling of exactly
one `Word`. -/
namespace CellScript

/-- A finite list of meanings with their spellings. -/
class Vocabulary (α : Type) where
  all : List α
  spelling : α → Text

namespace Vocabulary

variable {α : Type} [Vocabulary α]

def ofText? (w : Text) : Option α := all.find? fun a => spelling a == w

theorem spelling_ofText? {w : Text} {a : α} (found : ofText? w = some a) : spelling a = w := by
  have := List.find?_some found
  simpa using this

end Vocabulary

/-- A word of the vocabulary, or a text that is no word of it. -/
inductive Word (α : Type) [Vocabulary α] where
  | known (a : α)
  | other (w : Text) (unknown : Vocabulary.ofText? (α := α) w = none)

namespace Word

variable {α : Type} [Vocabulary α]

def ofText (w : Text) : Word α :=
  match h : Vocabulary.ofText? (α := α) w with
  | some a => known a
  | none => other w h

def text : Word α → Text
  | known a => Vocabulary.spelling a
  | other w _ => w

@[simp] theorem text_ofText (w : Text) : (ofText w : Word α).text = w := by
  unfold ofText
  split
  next a found => exact Vocabulary.spelling_ofText? found
  next => rfl

/-- An optional word, where the empty text means that there is none. -/
def ofOptional (w : Text) : Option (Word α) := if w.isEmpty then none else some (ofText w)

def optionalText : Option (Word α) → Text
  | some w => w.text
  | none => []

end Word

end CellScript
