import CellScript.Proofs.Real.Numerals
import CellScript.Proofs.Text.Utf8
import CellScript.Proofs.Tree.Regular
import CellScript.Tree.Decoding
import CellScript.Tree.Encoding

/-! The parts of a node in JSON: each is found under its name, clean if the tree's texts and numbers are,
and less deep than the node. -/
namespace CellScript

open Json (clean cleanItems cleanMembers)

/-! Words and their texts. -/

/-- A vocabulary in which no two meanings have one spelling. -/
class Vocabulary.Distinct (α : Type) [Vocabulary α] : Prop where
  ofText?_spelling (a : α) : ofText? (spelling a) = some a

section Words

open Vocabulary

instance : Distinct BinaryOp := ⟨by intro a; cases a <;> decide⟩

instance : Distinct UnaryOp := ⟨by intro a; cases a <;> decide⟩

instance : Distinct TypeName := ⟨by intro a; cases a <;> decide⟩

instance : Distinct AssignOp := ⟨by intro a; cases a <;> decide⟩

instance : Distinct ReadKind := ⟨by intro a; cases a <;> decide⟩

variable {α : Type} [Vocabulary α] [Distinct α]

@[simp] theorem Word.ofText_text (w : Word α) : ofText w.text = w := by
  unfold ofText
  cases w with
  | known a =>
    split
    next found =>
      rw [text, Distinct.ofText?_spelling] at found
      cases found
      rfl
    next none =>
      rw [text, Distinct.ofText?_spelling] at none
      cases none
  | other w unknown =>
    split
    next found =>
      rw [text, unknown] at found
      cases found
    next => rfl

theorem Word.ofOptional_optionalText {w : Option (Word α)} (regular : Regular.word w) :
    ofOptional (optionalText w) = w := by
  cases w with
  | none => rfl
  | some w =>
    have some : ¬ w.text.isEmpty := by simpa [Regular.word] using regular
    rw [optionalText, ofOptional, if_neg some, ofText_text]

end Words

@[simp] theorem utf8_inj {a b : String} : utf8 a = utf8 b ↔ a = b := by
  unfold utf8
  rw [Array.toList_inj, ← String.toByteArray_inj, String.toUTF8, String.toUTF8, ByteArray.ext_iff]

namespace Json

variable {j : Json}

@[simp] theorem textOrEmpty_string (t : Text) : (string t).textOrEmpty = t := rfl

def isObject : Json → Bool
  | object _ => true
  | _ => false

theorem eq_object (object : j.isObject) : ∃ members, j = .object members := by
  cases j with
  | object members => exact ⟨members, rfl⟩
  | _ => cases object

theorem depth_mem_items {items : List Json} (held : j ∈ items) : j.depth ≤ depthItems items := by
  induction items with
  | nil => cases held
  | cons i items ih =>
    rw [depthItems]
    rcases List.mem_cons.mp held with rfl | held
    · exact Nat.le_max_left _ _
    · exact Nat.le_trans (ih held) (Nat.le_max_right _ _)

theorem depth_itemsOrNone {i : Json} (held : i ∈ j.itemsOrNone) : i.depth < j.depth := by
  cases j with
  | array items => exact Nat.lt_succ_of_le (depth_mem_items held)
  | _ => cases held

/-- Each member is less deep than its object. -/
theorem depth_get_lt (object : j.isObject) (name : Text) : (j.get name).depth < j.depth := by
  cases j with
  | object members =>
    refine Nat.lt_succ_of_le (?_ : (members.foldl _ null).depth ≤ depthMembers members)
    refine Nat.le_trans (?_ : _ ≤ max null.depth (depthMembers members)) (by simp [depth])
    generalize null = found
    induction members generalizing found with
    | nil => simp [depthMembers]
    | cons member members ih =>
      rw [List.foldl_cons, depthMembers]
      refine Nat.le_trans (ih rfl _) ?_
      obtain ⟨n, v⟩ := member
      simp only
      split <;> omega
  | _ => cases object

theorem cleanItems_eq {fine : Text → Bool} {items : List Json} :
    cleanItems fine items = items.all (clean fine) := by
  induction items with
  | nil => rfl
  | cons i items ih => rw [cleanItems, ih, List.all_cons]

theorem clean_int {n : Int} (regular : Regular.coordinate n) {fine : Text → Bool} :
    (Encoding.int n).clean fine := by
  have fits : (Int64.ofInt n).toInt = n := by simpa [Regular.coordinate] using regular
  rw [Encoding.int, clean, isNumeral_ofInt, Real.read?_ofInt fits]
  rfl

@[simp] theorem clean_utf8 (t : String) : (string (utf8 t)).clean Text.isUtf8 := isUtf8_utf8 t

theorem clean_integer (n : Int64) {fine : Text → Bool} : (number (Integer.text n)).clean fine := by
  refine clean_int ?_
  simp [Regular.coordinate]

end Json

namespace Encoding

/-- The last part with a name, or what counts without one. -/
@[simp] def part (name : String) : List (String × Option Json) → Json → Json
  | [], found => found
  | (n, v) :: parts, found => part name parts (if n = name then v.getD found else found)

theorem foldl_parts (name : String) (parts : List (String × Option Json)) (found : Json) :
    (parts.filterMap fun (n, value) => value.map fun v => (utf8 n, v)).foldl
      (fun found (n, v) => if n = utf8 name then v else found) found = part name parts found := by
  induction parts generalizing found with
  | nil => rfl
  | cons p parts ih =>
    obtain ⟨n, value⟩ := p
    cases value with
    | none => simp [ih]
    | some v => simp [ih]

variable {type : String} {s : Span} {parts : List (String × Option Json)}

@[simp] theorem get_node (name : String) : Decoding.get name (node type s parts) =
    part name parts (if "span" = name then span s else if "type" = name then .string (utf8 type) else .null) := by
  rw [Decoding.get, node, Json.get, List.foldl_cons, List.foldl_cons, foldl_parts]
  simp only [utf8_inj]

theorem isObject_node : (node type s parts).isObject := rfl

section Optional

/-! What is left out, or written in one of several ways, is found again. -/

variable (j : Json) (t : Text) (items : List Json) (o : Origin)

@[simp] theorem getD_optional : (optional j).getD .null = j := by
  cases j <;> rfl

@[simp] theorem textOrEmpty_textPart : ((textPart t).getD .null).textOrEmpty = t := by
  cases t <;> rfl

@[simp] theorem itemsOrNone_listPart : ((listPart items).getD .null).itemsOrNone = items := by
  cases items <;> rfl

@[simp] theorem itemsOrNone_list : (list o items).itemsOrNone = items := by
  cases items with
  | nil => cases o <;> rfl
  | cons => simp [list, Json.itemsOrNone]

@[simp] theorem itemsOrNone_sequence (cleared : Bool) : (sequence o cleared items).itemsOrNone = items := by
  cases items with
  | nil => cases o <;> cases cleared <;> rfl
  | cons => simp [sequence, Json.itemsOrNone]

variable (fine : Text → Bool)

@[simp] theorem clean_optional : (optional j).all (clean fine) = j.clean fine := by
  cases j <;> simp [optional, Json.isNull, clean]

theorem clean_textPart (valid : fine t) : (textPart t).all (clean fine) := by
  cases t with
  | nil => rfl
  | cons => simpa [textPart, clean] using valid

@[simp] theorem clean_listPart : (listPart items).all (clean fine) = items.all (clean fine) := by
  cases items with
  | nil => rfl
  | cons => simp [listPart, clean, Json.cleanItems_eq]

@[simp] theorem clean_list : (list o items).clean fine = items.all (clean fine) := by
  cases items with
  | nil => cases o <;> rfl
  | cons => simp [list, clean, Json.cleanItems_eq]

@[simp] theorem clean_sequence (cleared : Bool) :
    (sequence o cleared items).clean fine = items.all (clean fine) := by
  cases items with
  | nil => cases o <;> cases cleared <;> rfl
  | cons => simp [sequence, clean, Json.cleanItems_eq]

end Optional

/-- Whether all parts that are there are clean. -/
def cleanParts (parts : List (String × Option Json)) : Bool :=
  parts.all fun (_, value) => value.all (clean Text.isUtf8)

theorem clean_span (regular : Regular.span s) : (span s).clean Text.isUtf8 := by
  simp only [Regular.span, Bool.and_eq_true] at regular
  obtain ⟨⟨⟨line, column⟩, stopLine⟩, stopColumn⟩ := regular
  simp [span, position, clean, cleanMembers, isUtf8_utf8, Json.clean_int, *]

theorem clean_node (regular : Regular.span s) (inner : cleanParts parts) :
    (node type s parts).clean Text.isUtf8 := by
  suffices rest : cleanMembers Text.isUtf8
      (parts.filterMap fun (name, value) => value.map fun v => (utf8 name, v)) by
    simp [node, clean, cleanMembers, isUtf8_utf8, clean_span regular, rest]
  induction parts with
  | nil => rfl
  | cons p parts ih =>
    obtain ⟨name, value⟩ := p
    simp only [cleanParts, List.all_cons, Bool.and_eq_true] at inner
    cases value with
    | none => exact ih inner.2
    | some v =>
      have value : v.clean Text.isUtf8 := inner.1
      simp [cleanMembers, isUtf8_utf8, value, ih inner.2]

end Encoding

namespace Decoding

open Encoding (node part)

@[simp] theorem pure_eq_ok {α : Type} (a : α) : (pure a : Decode α) = .ok a := rfl

@[simp] theorem ok_bind {α β : Type} (a : α) (next : α → Decode β) : (Except.ok a >>= next) = next a := rfl

theorem coordinate_int {n : Int} (regular : Regular.coordinate n) : coordinate (Encoding.int n) = n := by
  have fits : (Int64.ofInt n).toInt = n := by simpa [Regular.coordinate] using regular
  rw [Encoding.int, coordinate, Integer.read_ofInt fits]
  exact fits

@[simp] theorem integer_text (path : Text) (n : Int64) : integer path (.number (Integer.text n)) = .ok n := by
  rw [integer, Integer.read_text]
  rfl

theorem position_position {p : Position} (line : Regular.coordinate p.line)
    (column : Regular.coordinate p.column) : position (Encoding.position p) = p := by
  simp [Encoding.position, position, get, Json.get, coordinate_int line, coordinate_int column]

variable {type : String} {s : Span} {parts : List (String × Option Json)}

@[simp] theorem typeOf_node (kept : part "type" parts (.string (utf8 type)) = .string (utf8 type)) :
    typeOf (node type s parts) = utf8 type := by
  rw [typeOf, Encoding.get_node, if_neg (by decide), if_pos rfl, kept, Json.textOrEmpty_string]

@[simp] theorem spanOf_node
    (regular : Regular.span s) (kept : part "span" parts (Encoding.span s) = Encoding.span s) :
    spanOf (node type s parts) = s := by
  simp only [Regular.span, Bool.and_eq_true] at regular
  obtain ⟨⟨⟨line, column⟩, stopLine⟩, stopColumn⟩ := regular
  rw [spanOf, Encoding.get_node, if_pos rfl, kept]
  simp [Encoding.span, get, Json.get, position_position, *]

theorem typeOf_bare : typeOf (node type s []) = utf8 type := typeOf_node rfl

theorem spanOf_bare (regular : Regular.span s) : spanOf (node type s []) = s := spanOf_node regular rfl

end Decoding

end CellScript
