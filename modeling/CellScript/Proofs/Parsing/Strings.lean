import CellScript.Proofs.Parsing.Spans
import CellScript.Proofs.Text.Escapes

/-! The strings of a parsed tree are those of its tokens, so their backslashes are in pairs. -/
namespace CellScript

namespace Subtree

/-- The node and all below it have the property. -/
def Every (P : Subtree → Prop) (x : Subtree) : Prop := ∀ y, y.Under x → P y

variable {P : Subtree → Prop} {x : Subtree}

theorem Every.here (every : Every P x) : P x := every x (.refl x)

theorem Every.part (every : Every P x) {y : Subtree} (part : y ∈ x.parts) : Every P y :=
  fun z under => every z (.step part under)

theorem Every.of_parts (here : P x) (parts : ∀ y ∈ x.parts, Every P y) : Every P x := by
  intro y under
  cases under with
  | refl => exact here
  | step part below => exact parts _ part y below

/-- If the node is a string, its backslashes are in pairs. -/
def StringPaired : Subtree → Prop
  | literal (.string _ t) => t.Paired
  | _ => True

end Subtree

namespace Parser

/-- The strings still to be read have their backslashes in pairs. -/
def Cursor.Paired (c : Cursor) : Prop := ∀ t ∈ c.rest, t.kind = .string → t.value.Paired

variable {c d : Cursor} {xs ys : List Subtree}

theorem Cursor.Paired.skip (paired : c.Paired) : c.skip.Paired := by
  intro t member
  unfold Cursor.skip at member
  split at member
  next u rest read =>
    apply paired t
    rw [read]
    exact List.mem_cons_of_mem u member
  next => exact paired t member

theorem Cursor.Paired.string (paired : c.Paired) (next : c.kindAt 0 = .string) : c.value.Paired := by
  unfold Paired at paired
  unfold Cursor.kindAt at next
  unfold Cursor.value
  cases read : c.rest with
  | nil =>
    rw [read] at next
    cases next
  | cons t rest =>
    rw [read] at next
    exact paired t (by rw [read]; exact List.mem_cons_self) next

/-- All nodes of a list and all below them have paired strings. -/
def Quoted (xs : List Subtree) : Prop := ∀ x ∈ xs, Subtree.Every Subtree.StringPaired x

namespace Quoted

theorem nil : Quoted [] := List.forall_mem_nil _

theorem append (first : Quoted xs) (second : Quoted ys) : Quoted (xs ++ ys) :=
  List.forall_mem_append.mpr ⟨first, second⟩

theorem node {x : Subtree} (parts : Quoted x.parts) (here : x.StringPaired := by trivial) :
    Quoted [x] :=
  List.forall_mem_singleton.mpr (.of_parts here parts)

end Quoted

/-- Up to the second cursor no string is read whose backslashes are not in pairs. -/
theorem Parses.quoted {ph : Phrase} (parses : Parses ph c d) (paired : c.Paired) :
    d.Paired ∧ Quoted ph.subtrees := by
  induction parses with
  | noOperator | noSign | noTest | noTail | noLabel | noElement | noName | noParameters | noStatement
  | noInitial => exact ⟨paired, .nil⟩
  | sign | lastName => exact ⟨paired.skip, .nil⟩
  | wordTest | label => exact ⟨paired.skip.skip, .nil⟩
  | arrayTest | tupleTest => exact ⟨paired.skip.skip.skip, .nil⟩
  | read | integer | real | trueWord | falseWord | emptyWord | brk | cont | ret =>
    exact ⟨paired.skip, .node .nil⟩
  | string next => exact ⟨paired.skip, .node .nil (paired.string next)⟩
  | index | field | emptyCall | emptyArray => exact ⟨paired.skip.skip, .node .nil⟩
  | expression first rest ih ih' =>
    obtain ⟨between, head⟩ := ih paired
    obtain ⟨behind, others⟩ := ih' between
    refine ⟨behind, .node ?_⟩
    simpa [Subtree.parts, Phrase.subtrees, Function.comp_def] using head.append others
  | operator next right rest ih ih' =>
    obtain ⟨between, head⟩ := ih paired.skip
    obtain ⟨behind, others⟩ := ih' between
    exact ⟨behind, head.append others⟩
  | lastExpression last next ih =>
    obtain ⟨behind, inner⟩ := ih paired
    exact ⟨behind, by simpa [Phrase.subtrees] using inner⟩
  | anotherExpression first next rest ih ih' =>
    obtain ⟨between, head⟩ := ih paired
    obtain ⟨behind, others⟩ := ih' between.skip
    exact ⟨behind, head.append others⟩
  | operand sign inner test ih ih' ih'' =>
    obtain ⟨before, -⟩ := ih paired
    obtain ⟨between, inner⟩ := ih' before
    obtain ⟨behind, -⟩ := ih'' between
    exact ⟨behind, .node inner⟩
  | reference next tails ih =>
    obtain ⟨behind, inner⟩ := ih paired.skip
    exact ⟨behind, .node inner⟩
  | paren left inner right ih | subscript left inner right ih | call left inner right ih
  | array left inner right ih | tuple left inner right ih =>
    obtain ⟨behind, inner⟩ := ih paired.skip
    exact ⟨behind.skip, .node inner⟩
  | constant value ih =>
    obtain ⟨behind, inner⟩ := ih paired
    exact ⟨behind, .node inner⟩
  | anotherTail first rest ih ih' | anotherStatement first rest ih ih' =>
    obtain ⟨between, head⟩ := ih paired
    obtain ⟨behind, others⟩ := ih' between
    exact ⟨behind, by simpa [Phrase.subtrees] using head.append others⟩
  | function word params opening inner closing ih ih' =>
    obtain ⟨before, -⟩ := ih paired.skip
    obtain ⟨behind, inner⟩ := ih' before.skip
    exact ⟨behind.skip, .node inner⟩
  | lambda word params arrow result ih ih' =>
    obtain ⟨before, -⟩ := ih paired.skip
    obtain ⟨behind, inner⟩ := ih' before.skip
    exact ⟨behind, .node inner⟩
  | lastElement label value next ih ih' =>
    obtain ⟨before, -⟩ := ih paired
    obtain ⟨behind, inner⟩ := ih' before
    exact ⟨behind, .node (x := .element (.mk ..)) inner⟩
  | anotherElement label value next rest ih ih' ih'' =>
    obtain ⟨before, -⟩ := ih paired
    obtain ⟨between, inner⟩ := ih' before
    obtain ⟨behind, others⟩ := ih'' between.skip
    exact ⟨behind, .append (.node (x := .element (.mk ..)) inner) others⟩
  | anotherName name next rest ih => exact ⟨(ih paired.skip.skip).1, .nil⟩
  | parameters left names right ih => exact ⟨(ih paired.skip).1.skip, .nil⟩
  | semicolon next rest ih | declare next rest ih | initial next rest ih => exact ih paired.skip
  | body inner ih =>
    obtain ⟨behind, inner⟩ := ih paired
    exact ⟨behind, .node inner⟩
  | branch word condition opening inner closing ih ih' =>
    obtain ⟨between, condition⟩ := ih paired.skip
    obtain ⟨behind, inner⟩ := ih' between.skip
    exact ⟨behind.skip, .node ((condition.append inner).append .nil)⟩
  | whileLoop word condition opening repeated closing ih ih' =>
    obtain ⟨between, condition⟩ := ih paired.skip
    obtain ⟨behind, inner⟩ := ih' between.skip
    exact ⟨behind.skip, .node (condition.append inner)⟩
  | branches word condition opening inner otherwise other closing ih ih' ih'' =>
    obtain ⟨before, condition⟩ := ih paired.skip
    obtain ⟨between, inner⟩ := ih' before.skip
    obtain ⟨behind, other⟩ := ih'' between.skip
    exact ⟨behind.skip, .node ((condition.append inner).append other)⟩
  | forLoop word counter range first dots high opening repeated closing ih ih' ih'' =>
    obtain ⟨before, low⟩ := ih paired.skip.skip.skip
    obtain ⟨between, high⟩ := ih' before.skip
    obtain ⟨behind, inner⟩ := ih'' between.skip
    exact ⟨behind.skip, .node ((low.append high).append inner)⟩
  | print word arguments ih | retValue word arguments ih =>
    obtain ⟨behind, inner⟩ := ih paired.skip
    exact ⟨behind, .node inner⟩
  | assign target next value ih ih' =>
    obtain ⟨between, target⟩ := ih paired
    obtain ⟨behind, value⟩ := ih' between.skip
    exact ⟨behind, .node (target.append value)⟩
  | effect target next last ih =>
    obtain ⟨behind, target⟩ := ih paired
    exact ⟨behind, .node target⟩
  | lastDeclaration name initial next ih =>
    obtain ⟨behind, value⟩ := ih paired.skip
    exact ⟨behind, .node (x := .statement (.declare ..)) value⟩
  | anotherDeclaration name initial next rest ih ih' =>
    obtain ⟨between, value⟩ := ih paired.skip
    obtain ⟨behind, others⟩ := ih' between.skip
    exact ⟨behind, .append (.node (x := .statement (.declare ..)) value) others⟩

/-- The strings of a parsed program have their backslashes in pairs. -/
theorem strings_paired {source : Text} {p : Program} (parsed : parse source = .ok p) :
    Quoted (p.body.statements.map .statement) := by
  obtain ⟨ts, known, accepted⟩ := parse_eq_ok.mp parsed
  obtain ⟨ss, d, parses, -, rfl⟩ := parseTokens_eq_ok.mp accepted
  exact (parses.quoted (Lexer.read_paired known)).2

end Parser

end CellScript
