import Mathlib.Data.List.Forall2
import CellScript.Proofs.Tree.Nodes

/-! A tree is restored from its JSON. Each decoder needs at most three steps for a level of the JSON, as no
value is handed from one decoder to the next more than twice. -/
namespace CellScript.Decoding

open Encoding (Origin node part get_node cleanParts isObject_node)

attribute [local simp] expr operand primary tail requiredExpr literal element statement body optionalBody

/-- The JSON is clean and read as the tree, given steps enough for its depth. A decoder that `hands` the
value itself on to another needs one step more. -/
structure Restores {α : Type} (decode : Nat → Text → Json → Decode α) (hands : Bool) (j : Json) (x : α) :
    Prop where
  clean : j.clean Text.isUtf8
  decodes : ∀ n path, 3 * j.depth + hands.toNat ≤ n → decode n path j = .ok x

/-- A real that is read back from its text. -/
structure Readable (x : Float) : Prop where
  finite : Real.isFinite x
  back : Real.read? (Real.serial.write x) = some x

/-! What is missing is read from nothing. -/

@[simp] theorem expr_null (n : Nat) (path : Text) : expr n path .null = .ok .missing := by
  cases n <;> simp

@[simp] theorem optionalBody_null (n : Nat) (path : Text) : optionalBody n path .null = .ok .missing := by
  cases n <;> simp

section Rules

variable {α : Type} {decode : Nat → Text → Json → Decode α} {hands : Bool} {n : Nat} {i : Json} {x : α} {xs : List α}
  {js : List Json} {type : String} {s : Span} {parts : List (String × Option Json)}

theorem Restores.relax (inner : Restores decode false i x) : Restores decode true i x where
  clean := inner.clean
  decodes n path steps := inner.decodes n path (Nat.le_of_add_right_le steps)

/-- A node is read if one step, with what is left for its parts, reads it. -/
theorem restores_node (regular : Regular.span s) (inner : cleanParts parts)
    (decodes : ∀ n path members, node type s parts = .object members →
      3 * (node type s parts).depth ≤ n + 1 → decode (n + 1) path (.object members) = .ok x) :
    Restores decode false (node type s parts) x where
  clean := Encoding.clean_node regular inner
  decodes := by
    intro n path steps
    have deep := Json.depth_get_lt (@isObject_node type s parts) []
    obtain ⟨n, rfl⟩ : ∃ m, n = m + 1 := ⟨n - 1, by omega⟩
    exact decodes n path _ rfl steps

/-- A part is decoded with the steps that its node leaves. -/
theorem Restores.part (inner : Restores decode hands i x) (path : Text) (name : String)
    (steps : 3 * (node type s parts).depth ≤ n + 1)
    (found : get name (node type s parts) = i) : decode n path i = .ok x := by
  have deep := Json.depth_get_lt (@isObject_node type s parts) (utf8 name)
  have few := hands.toNat_le
  refine inner.decodes n path ?_
  rw [← found, get]
  omega

theorem all_clean (inner : List.Forall₂ (Restores decode hands) js xs) :
    js.all (Json.clean Text.isUtf8) := by
  induction inner with
  | nil => rfl
  | cons first rest ih =>
    rw [List.all_cons, first.clean, ih]
    rfl

/-- The items of a part are decoded one by one. -/
theorem each_ok (inner : List.Forall₂ (Restores decode hands) js xs) (path : Text) (name : String)
    (steps : 3 * (node type s parts).depth ≤ n + 1)
    (items : (get name (node type s parts)).itemsOrNone = js) : each (decode n) path name (node type s parts) = .ok xs := by
  have deep := Json.depth_get_lt (@isObject_node type s parts) (utf8 name)
  have few := hands.toNat_le
  have enough : ∀ i ∈ js, 3 * i.depth + hands.toNat ≤ n := by
    intro i held
    have := Json.depth_itemsOrNone (items ▸ held)
    rw [get] at this
    omega
  rw [each, items]
  clear items
  generalize 0 = k
  induction inner generalizing k with
  | nil => rfl
  | cons first rest ih =>
    obtain ⟨enough, others⟩ := List.forall_mem_cons.mp enough
    rw [List.zipIdx_cons, List.mapM_cons, ih others]
    simp only [first.decodes n _ enough]
    rfl

end Rules

section Nodes

open Encoding (list listPart textPart optional sequence clean_textPart)

variable {s : Span} {j i k : Json} {js : List Json} {o : Origin}

theorem restores_expr {xs : List Operand} {ops : List (Word BinaryOp)} (regular : Regular.span s)
    (count : xs.length = ops.length + 1) (valid : ∀ t ∈ ops.map Word.text, t.isUtf8)
    (inner : List.Forall₂ (Restores operand false) js xs) :
    Restores expr false (node "Expression" s [("operands", some (list o js)),
      ("operators", listPart (ops.map fun op => .string op.text))]) (.mk s xs ops) := by
  refine restores_node regular ?_ fun n path members same steps => ?_
  · have words : ∀ op ∈ ops, op.text.isUtf8 := fun op held => valid _ (List.mem_map_of_mem held)
    simp [cleanParts, Json.clean, all_clean inner]
    exact words
  · have decoded := each_ok inner path "operands" steps (by simp)
    simp only [expr, ← same]
    simp [regular, decoded, count, Function.comp_def]

theorem restores_operand {op : Option (Word UnaryOp)} {test : Option (Word TypeName)} {p : Primary}
    (regular : Regular.span s) (sign : Regular.word op) (asked : Regular.word test)
    (valid : (Word.optionalText op).isUtf8) (valid' : (Word.optionalText test).isUtf8)
    (inner : Restores primary false j p) (object : j.isObject) :
    Restores operand false (node "Unary" s [("operator", textPart (Word.optionalText op)),
      ("primary", some j), ("typeTest", textPart (Word.optionalText test))]) (.mk s op p test) := by
  refine restores_node regular ?_ fun n path members same steps => ?_
  · simp [cleanParts, clean_textPart, valid, valid', inner.clean]
  · obtain ⟨parts, rfl⟩ := Json.eq_object object
    have decoded := inner.part (member path "primary") "primary" steps (by simp)
    simp only [operand, ← same]
    simp [regular, Word.ofOptional_optionalText, sign, asked, decoded]

/-! Primaries. -/

theorem restores_read {kind : ReadKind} (regular : Regular.span s) (valid : (Word.known kind).text.isUtf8) :
    Restores primary false (node "Primary" s [("kind", some (.string (Word.known kind).text))])
      (.read s (.known kind)) := by
  refine restores_node regular ?_ fun n path members same steps => ?_
  · simp [cleanParts, Json.clean, valid]
  · simp only [primary, ← same]
    simp [regular, Word.text, Vocabulary.Distinct.ofText?_spelling]

/-- The kinds of the other primaries are no words for reading. -/
theorem ofText?_kind {kind : String} (other : kind ∈ ["variable", "literal", "parenthesized"]) :
    (Vocabulary.ofText? (utf8 kind) : Option ReadKind) = none := by
  revert kind
  decide

theorem restores_ref {name : Text} {ts : List Tail} (regular : Regular.span s) (valid : name.isUtf8)
    (inner : List.Forall₂ (Restores tail false) js ts) :
    Restores primary false (node "Primary" s [("kind", some (.string (utf8 "variable"))),
      ("name", textPart name), ("tails", listPart js)]) (.ref s name ts) := by
  refine restores_node regular ?_ fun n path members same steps => ?_
  · simp [cleanParts, clean_textPart, valid, all_clean inner]
  · have decoded := each_ok inner path "tails" steps (by simp)
    simp only [primary, ← same]
    simp [regular, ofText?_kind, decoded]

theorem restores_literal {l : Literal} (regular : Regular.span s) (inner : Restores literal false j l)
    (object : j.isObject) :
    Restores primary false (node "Primary" s [("kind", some (.string (utf8 "literal"))),
      ("literal", optional j)]) (.literal s l) := by
  refine restores_node regular ?_ fun n path members same steps => ?_
  · simp [cleanParts, inner.clean]
  · obtain ⟨parts, rfl⟩ := Json.eq_object object
    have decoded := inner.part (member path "literal") "literal" steps (by simp)
    simp only [primary, ← same]
    simp [regular, ofText?_kind, decoded]

theorem restores_paren {e : Expr} (regular : Regular.span s) (inner : Restores expr false j e)
    (present : e.isMissing = false) :
    Restores primary false (node "Primary" s [("kind", some (.string (utf8 "parenthesized"))),
      ("inner", optional j)]) (.paren s e) := by
  refine restores_node regular ?_ fun n path members same steps => ?_
  · simp [cleanParts, inner.clean]
  · have decoded := inner.part (member path "inner") "inner" steps (by simp)
    simp only [primary, ← same]
    simp [regular, ofText?_kind, decoded, required, present]

/-! Tails. -/

theorem restores_index {i : Int64} (regular : Regular.span s) :
    Restores tail false (node "Tail" s [("kind", some (.string (utf8 "tupleIndex"))),
      ("index", if i = 0 then none else some (.number (Integer.text i)))]) (.index s i) := by
  refine restores_node regular ?_ fun n path members same steps => ?_
  · split <;> simp [cleanParts, Json.clean_integer]
  · simp only [tail, ← same]
    split
    next zero => simp [regular, integer, zero]
    next => simp [regular]

theorem restores_field {name : Text} (regular : Regular.span s) (valid : name.isUtf8) :
    Restores tail false (node "Tail" s [("kind", some (.string (utf8 "tupleName"))),
      ("name", textPart name)]) (.field s name) := by
  refine restores_node regular ?_ fun n path members same steps => ?_
  · simp [cleanParts, clean_textPart, valid]
  · simp only [tail, ← same]
    simp [regular]

theorem restores_subscript {key : Expr} (regular : Regular.span s) (inner : Restores expr false j key)
    (present : key.isMissing = false) :
    Restores tail false (node "Tail" s [("kind", some (.string (utf8 "subscript"))),
      ("subscript", optional j)]) (.subscript s key) := by
  refine restores_node regular ?_ fun n path members same steps => ?_
  · simp [cleanParts, inner.clean]
  · have decoded := inner.part (member path "subscript") "subscript" steps (by simp)
    simp only [tail, ← same]
    simp [regular, decoded, required, present]

theorem restores_call {es : List Expr} (regular : Regular.span s)
    (inner : List.Forall₂ (Restores requiredExpr true) js es) :
    Restores tail false (node "Tail" s [("kind", some (.string (utf8 "call"))),
      ("arguments", listPart js)]) (.call s es) := by
  refine restores_node regular ?_ fun n path members same steps => ?_
  · simp [cleanParts, all_clean inner]
  · have decoded := each_ok inner path "arguments" steps (by simp)
    simp only [tail, ← same]
    simp [regular, decoded]

/-! Literals. -/

theorem restores_integer {n : Int64} (regular : Regular.span s) :
    Restores literal false (node "IntegerLiteral" s [("value", some (.number (Integer.text n)))])
      (.integer s n) := by
  refine restores_node regular ?_ fun n path members same steps => ?_
  · simp [cleanParts, Json.clean_integer]
  · simp only [literal, ← same]
    simp [regular, scalarLiteral, Json.isNull]

theorem restores_real {x : Float} (regular : Regular.span s) (readable : Readable x) :
    Restores literal false (node "RealLiteral" s [("value", some (.number (Real.serial.write x)))])
      (.real s x) := by
  refine restores_node regular ?_ fun n path members same steps => ?_
  · simp [cleanParts, Json.clean, Real.isNumeral_write readable.finite, readable.back]
  · simp only [literal, ← same]
    simp [regular, scalarLiteral, Json.isNull, real, readable.back]

theorem restores_boolean {b : Bool} (regular : Regular.span s) :
    Restores literal false (node "BooleanLiteral" s [("value", some (.bool b))]) (.boolean s b) := by
  refine restores_node regular ?_ fun n path members same steps => ?_
  · simp [cleanParts, Json.clean]
  · simp only [literal, ← same]
    simp [regular, scalarLiteral, Json.isNull]

theorem restores_string {t : Text} (regular : Regular.span s) (valid : t.isUtf8) :
    Restores literal false (node "StringLiteral" s [("value", some (.string t))]) (.string s t) := by
  refine restores_node regular ?_ fun n path members same steps => ?_
  · simp [cleanParts, Json.clean, valid]
  · simp only [literal, ← same]
    simp [regular, scalarLiteral, Json.isNull]

theorem restores_empty (regular : Regular.span s) :
    Restores literal false (node "EmptyLiteral" s []) (.empty s) := by
  refine restores_node regular rfl fun n path members same steps => ?_
  simp only [literal, ← same]
  simp [typeOf_bare, spanOf_bare regular]

theorem restores_array {es : List Expr} (regular : Regular.span s)
    (inner : List.Forall₂ (Restores requiredExpr true) js es) :
    Restores literal false (node "ArrayLiteral" s [("elements", some (list o js))]) (.array s es) := by
  refine restores_node regular ?_ fun n path members same steps => ?_
  · simp [cleanParts, all_clean inner]
  · have decoded := each_ok inner path "elements" steps (by simp)
    simp only [literal, ← same]
    simp [regular, decoded]

theorem restores_tuple {es : List Element} (regular : Regular.span s)
    (inner : List.Forall₂ (Restores element false) js es) :
    Restores literal false (node "TupleLiteral" s [("elements", some (list o js))]) (.tuple s es) := by
  refine restores_node regular ?_ fun n path members same steps => ?_
  · simp [cleanParts, all_clean inner]
  · have decoded := each_ok inner path "elements" steps (by simp)
    simp only [literal, ← same]
    simp [regular, decoded]

theorem clean_params {params : List Text} (valid : ∀ t ∈ params, t.isUtf8) :
    (params.map Json.string).all (Json.clean Text.isUtf8) := by
  simpa [Json.clean] using valid

theorem restores_function {params : List Text} {b : Body} (regular : Regular.span s)
    (valid : ∀ t ∈ params, t.isUtf8) (inner : Restores optionalBody true j b) (present : b.isMissing = false) :
    Restores literal false (node "FunctionLiteral" s [("params", some (sequence o false (params.map .string))),
      ("body", optional j)]) (.function s params b) := by
  refine restores_node regular ?_ fun n path members same steps => ?_
  · simp [cleanParts, clean_params valid, inner.clean]
  · have decoded := inner.part (member path "body") "body" steps (by simp)
    simp only [literal, ← same]
    simp [regular, decoded, present, Expr.isMissing, paramsOf, Function.comp_def]

theorem restores_lambda {params : List Text} {e : Expr} (regular : Regular.span s)
    (valid : ∀ t ∈ params, t.isUtf8) (inner : Restores expr false j e) (present : e.isMissing = false) :
    Restores literal false (node "FunctionLiteral" s [("params", some (sequence o false (params.map .string))),
      ("exprBody", optional j)]) (.lambda s params e) := by
  refine restores_node regular ?_ fun n path members same steps => ?_
  · simp [cleanParts, clean_params valid, inner.clean]
  · have decoded := inner.part (member path "exprBody") "exprBody" steps (by simp)
    simp only [literal, ← same]
    simp [regular, decoded, present, Body.isMissing, paramsOf, Function.comp_def]

theorem restores_element {name : Text} {e : Expr} (regular : Regular.span s) (valid : name.isUtf8)
    (inner : Restores expr false j e) (present : e.isMissing = false) :
    Restores element false (node "TupleElement" s [("name", textPart name), ("value", some j)])
      (.mk s name e) := by
  refine restores_node regular ?_ fun n path members same steps => ?_
  · simp [cleanParts, clean_textPart, valid, inner.clean]
  · have decoded := inner.part (member path "value") "value" steps (by simp)
    simp only [element, ← same]
    simp [regular, decoded, required, present]

/-! Statements and bodies. -/

theorem restores_declare {name : Text} {e : Expr} (regular : Regular.span s) (valid : name.isUtf8)
    (inner : Restores expr false j e) :
    Restores statement false (node "Declaration" s [("name", some (.string name)),
      ("initializer", optional j)]) (.declare s name e) := by
  refine restores_node regular ?_ fun n path members same steps => ?_
  · simp [cleanParts, Json.clean, valid, inner.clean]
  · have decoded := inner.part (member path "initializer") "initializer" steps (by simp)
    simp only [statement, ← same]
    simp [regular, decoded]

theorem restores_assign {op : Option (Word AssignOp)} {p : Primary} {e : Expr} (regular : Regular.span s)
    (change : Regular.word op) (valid : (Word.optionalText op).isUtf8) (target : Restores primary false i p)
    (object : i.isObject) (inner : Restores expr false j e) :
    Restores statement false (node "Assignment" s [("target", some i),
      ("operator", textPart (Word.optionalText op)), ("value", optional j)]) (.assign s p op e) := by
  refine restores_node regular ?_ fun n path members same steps => ?_
  · simp [cleanParts, clean_textPart, valid, target.clean, inner.clean]
  · obtain ⟨parts, rfl⟩ := Json.eq_object object
    have decodedTarget := target.part (member path "target") "target" steps (by simp)
    have decoded := inner.part (member path "value") "value" steps (by simp)
    simp only [statement, ← same]
    simp [regular, Word.ofOptional_optionalText, change, decodedTarget, decoded]

theorem restores_branch {e : Expr} {b c : Body} (regular : Regular.span s) (test : Restores expr false i e)
    (present : e.isMissing = false) (yes : Restores optionalBody true j b) (stands : b.isMissing = false)
    (no : Restores optionalBody true k c) :
    Restores statement false (node "If" s [("condition", some i), ("then", some j), ("else", optional k)])
      (.branch s e b c) := by
  refine restores_node regular ?_ fun n path members same steps => ?_
  · simp [cleanParts, test.clean, yes.clean, no.clean]
  · have decodedTest := test.part (member path "condition") "condition" steps (by simp)
    have decodedYes := yes.part (member path "then") "then" steps (by simp)
    have decodedNo := no.part (member path "else") "else" steps (by simp)
    simp only [statement, ← same]
    simp [regular, decodedTest, decodedYes, decodedNo, required, present, stands]

theorem restores_forLoop {counter : Text} {e f : Expr} {b : Body} (regular : Regular.span s)
    (valid : counter.isUtf8) (low : Restores expr false i e) (presentLow : e.isMissing = false)
    (high : Restores expr false j f) (presentHigh : f.isMissing = false)
    (inner : Restores optionalBody true k b) (stands : b.isMissing = false) :
    Restores statement false (node "For" s [("variable", some (.string counter)), ("low", some i),
      ("high", some j), ("body", some k)]) (.forLoop s counter e f b) := by
  refine restores_node regular ?_ fun n path members same steps => ?_
  · simp [cleanParts, Json.clean, valid, low.clean, high.clean, inner.clean]
  · have decodedLow := low.part (member path "low") "low" steps (by simp)
    have decodedHigh := high.part (member path "high") "high" steps (by simp)
    have decoded := inner.part (member path "body") "body" steps (by simp)
    simp only [statement, ← same]
    simp [regular, decodedLow, decodedHigh, decoded, required, presentLow, presentHigh, stands]

theorem restores_whileLoop {e : Expr} {b : Body} (regular : Regular.span s) (test : Restores expr false i e)
    (present : e.isMissing = false) (inner : Restores optionalBody true j b) (stands : b.isMissing = false) :
    Restores statement false (node "While" s [("condition", some i), ("body", some j)])
      (.whileLoop s e b) := by
  refine restores_node regular ?_ fun n path members same steps => ?_
  · simp [cleanParts, test.clean, inner.clean]
  · have decodedTest := test.part (member path "condition") "condition" steps (by simp)
    have decoded := inner.part (member path "body") "body" steps (by simp)
    simp only [statement, ← same]
    simp [regular, decodedTest, decoded, required, present, stands]

theorem restores_print {es : List Expr} (regular : Regular.span s)
    (inner : List.Forall₂ (Restores requiredExpr true) js es) :
    Restores statement false (node "Print" s [("arguments", some (list o js))]) (.print s es) := by
  refine restores_node regular ?_ fun n path members same steps => ?_
  · simp [cleanParts, all_clean inner]
  · have decoded := each_ok inner path "arguments" steps (by simp)
    simp only [statement, ← same]
    simp [regular, decoded]

theorem restores_ret {e : Expr} (regular : Regular.span s) (inner : Restores expr false j e) :
    Restores statement false (node "Return" s [("value", optional j)]) (.ret s e) := by
  refine restores_node regular ?_ fun n path members same steps => ?_
  · simp [cleanParts, inner.clean]
  · have decoded := inner.part (member path "value") "value" steps (by simp)
    simp only [statement, ← same]
    simp [regular, decoded]

theorem restores_brk (regular : Regular.span s) : Restores statement false (node "Break" s []) (.brk s) := by
  refine restores_node regular rfl fun n path members same steps => ?_
  simp only [statement, ← same]
  simp [typeOf_bare, spanOf_bare regular]

theorem restores_cont (regular : Regular.span s) :
    Restores statement false (node "Continue" s []) (.cont s) := by
  refine restores_node regular rfl fun n path members same steps => ?_
  simp only [statement, ← same]
  simp [typeOf_bare, spanOf_bare regular]

theorem restores_body {ss : List Statement} {cleared : Bool} (regular : Regular.span s)
    (inner : List.Forall₂ (Restores statement true) js ss) :
    Restores body false (node "Body" s [("statements", some (sequence o cleared js))]) (.mk s ss false) := by
  refine restores_node regular ?_ fun n path members same steps => ?_
  · simp [cleanParts, all_clean inner]
  · have decoded := each_ok inner path "statements" steps (by simp)
    simp only [body, ← same]
    simp [regular, decoded]

/-- A body that is a statement of its own takes one step more. -/
theorem restores_block {b : Body} (inner : Restores body false j b) (object : j.isObject)
    (type : typeOf j = utf8 "Body") : Restores statement true j (.block b) where
  clean := inner.clean
  decodes := by
    intro n path steps
    obtain ⟨n, rfl⟩ : ∃ m, n = m + 1 := ⟨n - 1, by rw [Bool.toNat_true] at steps; omega⟩
    obtain ⟨members, rfl⟩ := Json.eq_object object
    have decoded := inner.decodes n path (Nat.le_of_succ_le_succ steps)
    simp [type, decoded]

theorem restores_optionalBody {b : Body} (inner : Restores body false j b) (object : j.isObject) :
    Restores optionalBody true j b where
  clean := inner.clean
  decodes := by
    intro n path steps
    obtain ⟨n, rfl⟩ : ∃ m, n = m + 1 := ⟨n - 1, by rw [Bool.toNat_true] at steps; omega⟩
    obtain ⟨members, rfl⟩ := Json.eq_object object
    rw [optionalBody]
    exact inner.decodes n path (Nat.le_of_succ_le_succ steps)

theorem restores_requiredExpr {e : Expr} (inner : Restores expr false j e) (present : e.isMissing = false) :
    Restores requiredExpr true j e where
  clean := inner.clean
  decodes := by
    intro n path steps
    obtain ⟨n, rfl⟩ : ∃ m, n = m + 1 := ⟨n - 1, by rw [Bool.toNat_true] at steps; omega⟩
    rw [requiredExpr, inner.decodes n path (Nat.le_of_succ_le_succ steps)]
    simp [required, present]

end Nodes

section Trees

variable (o : Origin)

/-- What is written is an object from which the tree is restored. -/
def Written {α : Type} (written : Option Json) (decode : Nat → Text → Json → Decode α) (hands : Bool) (x : α) :
    Prop :=
  ∃ j, written = some j ∧ j.isObject ∧ Restores decode hands j x

def WrittenAll {α : Type} (written : Option (List Json)) (decode : Nat → Text → Json → Decode α)
    (hands : Bool) (xs : List α) : Prop :=
  ∃ js, written = some js ∧ List.Forall₂ (Restores decode hands) js xs

theorem isUtf8_optionalText {α : Type} [Vocabulary α] {w : Option (Word α)}
    (valid : ∀ t ∈ Texts.word w, t.isUtf8) : (Word.optionalText w).isUtf8 := by
  cases w with
  | none => exact isUtf8_utf8 ""
  | some w => exact valid _ (List.mem_map_of_mem (Option.mem_toList.mpr rfl))

@[simp] theorem isMissing_restamp_expr (f : Span → Span) (e : Expr) :
    (Restamp.expr f e).isMissing = e.isMissing := by
  cases e <;> rfl

@[simp] theorem isMissing_restamp_body (f : Span → Span) (b : Body) :
    (Restamp.body f b).isMissing = b.isMissing := by
  cases b <;> rfl

@[simp] theorem length_restamp_operands (f : Span → Span) (xs : List Operand) :
    (Restamp.operands f xs).length = xs.length := by
  induction xs with
  | nil => rfl
  | cons x xs ih => simp [Restamp.operands, ih]

mutual

theorem expr_written : ∀ e, Regular.expr e → (∀ t ∈ Texts.expr e, t.isUtf8) →
    (∀ x ∈ Reals.expr e, Readable x) →
    ∃ j, Encoding.expr o e = some j ∧ Restores expr false j (Restamp.expr id e)
  | .missing, _, _, _ => ⟨.null, rfl, rfl, fun n path _ => expr_null n path⟩
  | .mk s xs ops, regular, texts, reals => by
    simp only [Regular.expr, Bool.and_eq_true, beq_iff_eq] at regular
    obtain ⟨⟨regular, count⟩, inside⟩ := regular
    simp only [Texts.expr, List.forall_mem_append] at texts
    obtain ⟨js, encoded, inner⟩ := operands_written xs inside texts.1 reals
    exact ⟨_, by rw [Encoding.expr, encoded]; rfl, restores_expr regular (by simpa using count) texts.2 inner⟩

theorem exprs_written : ∀ es, Regular.exprs es → (∀ t ∈ Texts.exprs es, t.isUtf8) →
    (∀ x ∈ Reals.exprs es, Readable x) →
    WrittenAll (Encoding.exprs o es) requiredExpr true (Restamp.exprs id es)
  | [], _, _, _ => ⟨[], rfl, .nil⟩
  | e :: es, regular, texts, reals => by
    simp only [Regular.exprs, Bool.and_eq_true, Bool.not_eq_true'] at regular
    obtain ⟨⟨present, regular⟩, regulars⟩ := regular
    simp only [Texts.exprs, List.forall_mem_append] at texts
    simp only [Reals.exprs, List.forall_mem_append] at reals
    obtain ⟨j, encoded, first⟩ := expr_written e regular texts.1 reals.1
    obtain ⟨js, others, rest⟩ := exprs_written es regulars texts.2 reals.2
    exact ⟨j :: js, by rw [Encoding.exprs, encoded, others]; rfl,
      .cons (restores_requiredExpr first (by simpa using present)) rest⟩

theorem operand_written : ∀ x, Regular.operand x → (∀ t ∈ Texts.operand x, t.isUtf8) →
    (∀ r ∈ Reals.operand x, Readable r) →
    Written (Encoding.operand o x) operand false (Restamp.operand id x)
  | .mk s op p test, regular, texts, reals => by
    simp only [Regular.operand, Bool.and_eq_true] at regular
    obtain ⟨⟨⟨regular, sign⟩, inside⟩, asked⟩ := regular
    simp only [Texts.operand, List.forall_mem_append] at texts
    obtain ⟨⟨signText, texts⟩, askedText⟩ := texts
    obtain ⟨j, encoded, object, inner⟩ := primary_written p inside texts reals
    exact ⟨_, by rw [Encoding.operand, encoded]; rfl, isObject_node, restores_operand regular sign asked
      (isUtf8_optionalText signText) (isUtf8_optionalText askedText) inner object⟩

theorem operands_written : ∀ xs, Regular.operands xs → (∀ t ∈ Texts.operands xs, t.isUtf8) →
    (∀ r ∈ Reals.operands xs, Readable r) →
    WrittenAll (Encoding.operands o xs) operand false (Restamp.operands id xs)
  | [], _, _, _ => ⟨[], rfl, .nil⟩
  | x :: xs, regular, texts, reals => by
    simp only [Regular.operands, Bool.and_eq_true] at regular
    simp only [Texts.operands, List.forall_mem_append] at texts
    simp only [Reals.operands, List.forall_mem_append] at reals
    obtain ⟨j, encoded, -, first⟩ := operand_written x regular.1 texts.1 reals.1
    obtain ⟨js, others, rest⟩ := operands_written xs regular.2 texts.2 reals.2
    exact ⟨j :: js, by rw [Encoding.operands, encoded, others]; rfl, .cons first rest⟩

theorem primary_written : ∀ p, Regular.primary p → (∀ t ∈ Texts.primary p, t.isUtf8) →
    (∀ x ∈ Reals.primary p, Readable x) →
    Written (Encoding.primary o p) primary false (Restamp.primary id p)
  | .read s kind, regular, texts, _ => by
    simp only [Regular.primary, Bool.and_eq_true] at regular
    cases kind with
    | known kind =>
      exact ⟨_, rfl, isObject_node, restores_read regular.1 (texts _ List.mem_cons_self)⟩
    | other => cases regular.2
  | .ref s name ts, regular, texts, reals => by
    simp only [Regular.primary, Bool.and_eq_true] at regular
    simp only [Texts.primary, List.forall_mem_cons] at texts
    obtain ⟨js, encoded, inner⟩ := tails_written ts regular.2 texts.2 reals
    exact ⟨_, by rw [Encoding.primary, encoded]; rfl, isObject_node, restores_ref regular.1 texts.1 inner⟩
  | .literal s l, regular, texts, reals => by
    simp only [Regular.primary, Bool.and_eq_true] at regular
    obtain ⟨j, encoded, object, inner⟩ := literal_written l regular.2 texts reals
    exact ⟨_, by rw [Encoding.primary, encoded]; rfl, isObject_node, restores_literal regular.1 inner object⟩
  | .paren s e, regular, texts, reals => by
    simp only [Regular.primary, Bool.and_eq_true, Bool.not_eq_true'] at regular
    obtain ⟨⟨regular, present⟩, inside⟩ := regular
    obtain ⟨j, encoded, inner⟩ := expr_written e inside texts reals
    exact ⟨_, by rw [Encoding.primary, encoded]; rfl, isObject_node,
      restores_paren regular inner (by simpa using present)⟩

theorem tail_written : ∀ t, Regular.tail t → (∀ u ∈ Texts.tail t, u.isUtf8) →
    (∀ x ∈ Reals.tail t, Readable x) → Written (Encoding.tail o t) tail false (Restamp.tail id t)
  | .index s i, regular, _, _ => ⟨_, rfl, isObject_node, restores_index regular⟩
  | .field s name, regular, texts, _ =>
    ⟨_, rfl, isObject_node, restores_field regular (texts _ List.mem_cons_self)⟩
  | .subscript s key, regular, texts, reals => by
    simp only [Regular.tail, Bool.and_eq_true, Bool.not_eq_true'] at regular
    obtain ⟨⟨regular, present⟩, inside⟩ := regular
    obtain ⟨j, encoded, inner⟩ := expr_written key inside texts reals
    exact ⟨_, by rw [Encoding.tail, encoded]; rfl, isObject_node,
      restores_subscript regular inner (by simpa using present)⟩
  | .call s es, regular, texts, reals => by
    simp only [Regular.tail, Bool.and_eq_true] at regular
    obtain ⟨js, encoded, inner⟩ := exprs_written es regular.2 texts reals
    exact ⟨_, by rw [Encoding.tail, encoded]; rfl, isObject_node, restores_call regular.1 inner⟩

theorem tails_written : ∀ ts, Regular.tails ts → (∀ u ∈ Texts.tails ts, u.isUtf8) →
    (∀ x ∈ Reals.tails ts, Readable x) →
    WrittenAll (Encoding.tails o ts) tail false (Restamp.tails id ts)
  | [], _, _, _ => ⟨[], rfl, .nil⟩
  | t :: ts, regular, texts, reals => by
    simp only [Regular.tails, Bool.and_eq_true] at regular
    simp only [Texts.tails, List.forall_mem_append] at texts
    simp only [Reals.tails, List.forall_mem_append] at reals
    obtain ⟨j, encoded, -, first⟩ := tail_written t regular.1 texts.1 reals.1
    obtain ⟨js, others, rest⟩ := tails_written ts regular.2 texts.2 reals.2
    exact ⟨j :: js, by rw [Encoding.tails, encoded, others]; rfl, .cons first rest⟩

theorem literal_written : ∀ l, Regular.literal l → (∀ t ∈ Texts.literal l, t.isUtf8) →
    (∀ x ∈ Reals.literal l, Readable x) →
    Written (Encoding.literal o l) literal false (Restamp.literal id l)
  | .integer s n, regular, _, _ => ⟨_, rfl, isObject_node, restores_integer regular⟩
  | .real s x, regular, _, reals => by
    have readable := reals x List.mem_cons_self
    refine ⟨_, ?_, isObject_node, restores_real regular readable⟩
    rw [Encoding.literal, Encoding.real, if_pos readable.finite]
    rfl
  | .boolean s b, regular, _, _ => ⟨_, rfl, isObject_node, restores_boolean regular⟩
  | .string s t, regular, texts, _ =>
    ⟨_, rfl, isObject_node, restores_string regular (texts t List.mem_cons_self)⟩
  | .empty s, regular, _, _ => ⟨_, rfl, isObject_node, restores_empty regular⟩
  | .array s es, regular, texts, reals => by
    simp only [Regular.literal, Bool.and_eq_true] at regular
    obtain ⟨js, encoded, inner⟩ := exprs_written es regular.2 texts reals
    exact ⟨_, by rw [Encoding.literal, encoded]; rfl, isObject_node, restores_array regular.1 inner⟩
  | .tuple s es, regular, texts, reals => by
    simp only [Regular.literal, Bool.and_eq_true] at regular
    obtain ⟨js, encoded, inner⟩ := elements_written es regular.2 texts reals
    exact ⟨_, by rw [Encoding.literal, encoded]; rfl, isObject_node, restores_tuple regular.1 inner⟩
  | .function s params b, regular, texts, reals => by
    simp only [Regular.literal, Bool.and_eq_true, Bool.not_eq_true'] at regular
    obtain ⟨⟨regular, present⟩, inside⟩ := regular
    simp only [Texts.literal, List.forall_mem_append] at texts
    obtain ⟨j, encoded, inner, -⟩ := body_written b inside texts.2 reals
    exact ⟨_, by rw [Encoding.literal, encoded]; rfl, isObject_node,
      restores_function regular texts.1 inner (by simpa using present)⟩
  | .lambda s params e, regular, texts, reals => by
    simp only [Regular.literal, Bool.and_eq_true, Bool.not_eq_true'] at regular
    obtain ⟨⟨regular, present⟩, inside⟩ := regular
    simp only [Texts.literal, List.forall_mem_append] at texts
    obtain ⟨j, encoded, inner⟩ := expr_written e inside texts.2 reals
    exact ⟨_, by rw [Encoding.literal, encoded]; rfl, isObject_node,
      restores_lambda regular texts.1 inner (by simpa using present)⟩

theorem element_written : ∀ e, Regular.element e → (∀ t ∈ Texts.element e, t.isUtf8) →
    (∀ x ∈ Reals.element e, Readable x) →
    Written (Encoding.element o e) element false (Restamp.element id e)
  | .mk s name value, regular, texts, reals => by
    simp only [Regular.element, Bool.and_eq_true, Bool.not_eq_true'] at regular
    obtain ⟨⟨regular, present⟩, inside⟩ := regular
    simp only [Texts.element, List.forall_mem_cons] at texts
    obtain ⟨j, encoded, inner⟩ := expr_written value inside texts.2 reals
    exact ⟨_, by rw [Encoding.element, encoded]; rfl, isObject_node,
      restores_element regular texts.1 inner (by simpa using present)⟩

theorem elements_written : ∀ es, Regular.elements es → (∀ t ∈ Texts.elements es, t.isUtf8) →
    (∀ x ∈ Reals.elements es, Readable x) →
    WrittenAll (Encoding.elements o es) element false (Restamp.elements id es)
  | [], _, _, _ => ⟨[], rfl, .nil⟩
  | e :: es, regular, texts, reals => by
    simp only [Regular.elements, Bool.and_eq_true] at regular
    simp only [Texts.elements, List.forall_mem_append] at texts
    simp only [Reals.elements, List.forall_mem_append] at reals
    obtain ⟨j, encoded, -, first⟩ := element_written e regular.1 texts.1 reals.1
    obtain ⟨js, others, rest⟩ := elements_written es regular.2 texts.2 reals.2
    exact ⟨j :: js, by rw [Encoding.elements, encoded, others]; rfl, .cons first rest⟩

theorem statement_written : ∀ s, Regular.statement s → (∀ t ∈ Texts.statement s, t.isUtf8) →
    (∀ x ∈ Reals.statement s, Readable x) →
    Written (Encoding.statement o s) statement true (Restamp.statement id s)
  | .declare s name e, regular, texts, reals => by
    simp only [Regular.statement, Bool.and_eq_true] at regular
    simp only [Texts.statement, List.forall_mem_cons] at texts
    obtain ⟨j, encoded, inner⟩ := expr_written e regular.2 texts.2 reals
    exact ⟨_, by rw [Encoding.statement, encoded]; rfl, isObject_node,
      (restores_declare regular.1 texts.1 inner).relax⟩
  | .assign s p op e, regular, texts, reals => by
    simp only [Regular.statement, Bool.and_eq_true] at regular
    obtain ⟨⟨⟨regular, goal⟩, change⟩, inside⟩ := regular
    simp only [Texts.statement, List.forall_mem_append] at texts
    obtain ⟨⟨targetTexts, changeText⟩, texts⟩ := texts
    simp only [Reals.statement, List.forall_mem_append] at reals
    obtain ⟨i, encodedTarget, object, target⟩ := primary_written p goal targetTexts reals.1
    obtain ⟨j, encoded, inner⟩ := expr_written e inside texts reals.2
    exact ⟨_, by rw [Encoding.statement, encodedTarget, encoded]; rfl, isObject_node,
      (restores_assign regular change (isUtf8_optionalText changeText) target object inner).relax⟩
  | .branch s e b c, regular, texts, reals => by
    simp only [Regular.statement, Bool.and_eq_true, Bool.not_eq_true'] at regular
    obtain ⟨⟨⟨⟨⟨regular, present⟩, tested⟩, stands⟩, inside⟩, outside⟩ := regular
    simp only [Texts.statement, List.forall_mem_append] at texts
    simp only [Reals.statement, List.forall_mem_append] at reals
    obtain ⟨i, encodedTest, test⟩ := expr_written e tested texts.1.1 reals.1.1
    obtain ⟨j, encodedYes, yes, -⟩ := body_written b inside texts.1.2 reals.1.2
    obtain ⟨k, encodedNo, no, -⟩ := body_written c outside texts.2 reals.2
    exact ⟨_, by rw [Encoding.statement, encodedTest, encodedYes, encodedNo]; rfl, isObject_node,
      (restores_branch regular test (by simpa using present) yes (by simpa using stands) no).relax⟩
  | .forLoop s counter e f b, regular, texts, reals => by
    simp only [Regular.statement, Bool.and_eq_true, Bool.not_eq_true'] at regular
    obtain ⟨⟨⟨⟨⟨⟨regular, presentLow⟩, insideLow⟩, presentHigh⟩, insideHigh⟩, stands⟩, inside⟩ := regular
    simp only [Texts.statement, List.forall_mem_append, List.forall_mem_cons] at texts
    obtain ⟨⟨⟨name, lowTexts⟩, highTexts⟩, texts⟩ := texts
    simp only [Reals.statement, List.forall_mem_append] at reals
    obtain ⟨i, encodedLow, low⟩ := expr_written e insideLow lowTexts reals.1.1
    obtain ⟨j, encodedHigh, high⟩ := expr_written f insideHigh highTexts reals.1.2
    obtain ⟨k, encoded, inner, -⟩ := body_written b inside texts reals.2
    exact ⟨_, by rw [Encoding.statement, encodedLow, encodedHigh, encoded]; rfl, isObject_node,
      (restores_forLoop regular name low (by simpa using presentLow) high (by simpa using presentHigh)
        inner (by simpa using stands)).relax⟩
  | .whileLoop s e b, regular, texts, reals => by
    simp only [Regular.statement, Bool.and_eq_true, Bool.not_eq_true'] at regular
    obtain ⟨⟨⟨⟨regular, present⟩, tested⟩, stands⟩, inside⟩ := regular
    simp only [Texts.statement, List.forall_mem_append] at texts
    simp only [Reals.statement, List.forall_mem_append] at reals
    obtain ⟨i, encodedTest, test⟩ := expr_written e tested texts.1 reals.1
    obtain ⟨j, encoded, inner, -⟩ := body_written b inside texts.2 reals.2
    exact ⟨_, by rw [Encoding.statement, encodedTest, encoded]; rfl, isObject_node,
      (restores_whileLoop regular test (by simpa using present) inner (by simpa using stands)).relax⟩
  | .print s es, regular, texts, reals => by
    simp only [Regular.statement, Bool.and_eq_true] at regular
    obtain ⟨js, encoded, inner⟩ := exprs_written es regular.2 texts reals
    exact ⟨_, by rw [Encoding.statement, encoded]; rfl, isObject_node,
      (restores_print regular.1 inner).relax⟩
  | .ret s e, regular, texts, reals => by
    simp only [Regular.statement, Bool.and_eq_true] at regular
    obtain ⟨j, encoded, inner⟩ := expr_written e regular.2 texts reals
    exact ⟨_, by rw [Encoding.statement, encoded]; rfl, isObject_node,
      (restores_ret regular.1 inner).relax⟩
  | .brk s, regular, _, _ => ⟨_, rfl, isObject_node, (restores_brk regular).relax⟩
  | .cont s, regular, _, _ => ⟨_, rfl, isObject_node, (restores_cont regular).relax⟩
  | .block b, regular, texts, reals => by
    simp only [Regular.statement, Bool.and_eq_true, Bool.not_eq_true'] at regular
    obtain ⟨j, encoded, -, stands⟩ := body_written b regular.2 texts reals
    obtain ⟨object, type, inner⟩ := stands regular.1
    exact ⟨j, encoded, object, restores_block inner object type⟩

theorem statements_written : ∀ ss, Regular.statements ss → (∀ t ∈ Texts.statements ss, t.isUtf8) →
    (∀ x ∈ Reals.statements ss, Readable x) →
    WrittenAll (Encoding.statements o ss) statement true (Restamp.statements id ss)
  | [], _, _, _ => ⟨[], rfl, .nil⟩
  | s :: ss, regular, texts, reals => by
    simp only [Regular.statements, Bool.and_eq_true] at regular
    simp only [Texts.statements, List.forall_mem_append] at texts
    simp only [Reals.statements, List.forall_mem_append] at reals
    obtain ⟨j, encoded, -, first⟩ := statement_written s regular.1 texts.1 reals.1
    obtain ⟨js, others, rest⟩ := statements_written ss regular.2 texts.2 reals.2
    exact ⟨j :: js, by rw [Encoding.statements, encoded, others]; rfl, .cons first rest⟩

theorem body_written : ∀ b, Regular.body b → (∀ t ∈ Texts.body b, t.isUtf8) →
    (∀ x ∈ Reals.body b, Readable x) →
    ∃ j, Encoding.body o b = some j ∧ Restores optionalBody true j (Restamp.body id b) ∧
      (b.isMissing = false → j.isObject ∧ typeOf j = utf8 "Body" ∧
        Restores body false j (Restamp.body id b))
  | .missing, _, _, _ => ⟨.null, rfl, ⟨rfl, fun n path _ => optionalBody_null n path⟩, nofun⟩
  | .mk s ss cleared, regular, texts, reals => by
    simp only [Regular.body, Bool.and_eq_true] at regular
    obtain ⟨js, encoded, inner⟩ := statements_written ss regular.2 texts reals
    have inner := @restores_body s js o _ cleared regular.1 inner
    exact ⟨_, by rw [Encoding.body, encoded]; rfl, restores_optionalBody inner isObject_node,
      fun _ => ⟨isObject_node, by simp, inner⟩⟩

end

end Trees

end CellScript.Decoding
