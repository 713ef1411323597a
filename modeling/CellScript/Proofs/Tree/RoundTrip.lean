import CellScript.Proofs.Json.Document
import CellScript.Proofs.Tree.Decoded
import CellScript.Proofs.Tree.Restored

/-! Programs and their JSON texts, through any codec that is faithful down to some depth. A regular program
is written, and the text is read as that program again unless it nests deeper than the reader goes; what is
read from any text is regular. -/
namespace CellScript

open Decoding

section Written

variable (o : Encoding.Origin) {p : Program}

/-- A regular program has a JSON object, which describes it. -/
theorem Program.toJson?_written (regular : p.isRegular) (texts : ∀ t ∈ p.texts, t.isUtf8)
    (reals : ∀ x ∈ p.reals, Readable x) :
    ∃ j, p.toJson? o = some j ∧ j.isObject ∧ j.clean Text.isUtf8 ∧ program j = .ok (p.restamp id) := by
  simp only [isRegular, Bool.and_eq_true, Bool.not_eq_true'] at regular
  obtain ⟨⟨spanned, present⟩, inside⟩ := regular
  obtain ⟨j, encoded, -, stands⟩ := body_written o p.body inside texts reals
  obtain ⟨object, -, inner⟩ := stands present
  refine ⟨_, by rw [toJson?, encoded]; rfl, rfl, ?_, ?_⟩
  · refine Encoding.clean_node spanned ?_
    simp [Encoding.cleanParts, inner.clean]
  · obtain ⟨members, rfl⟩ := Json.eq_object object
    have steps (d : Nat) : 3 * d ≤ 3 * d + 3 + 1 := by omega
    have decoded := @Restores.part _ _ _ _ _ _ "Program" p.span [("body", some (.object members))] inner
      (utf8 "$.body") "body" (steps _) (by simp)
    simp [program, spanned, decoded, restamp]

end Written

section Read

variable {c : Json.Codec} {limit : Nat}

/-- The text of a clean object gives what the object describes, unless it is too deep for the reader. -/
theorem decodeWith_write (faithful : c.Faithful limit) {j : Json} {p : Program} (object : j.isObject)
    (clean : j.clean Text.isUtf8) (described : program j = .ok p) :
    decodeWith c (c.write j) = if j.depth ≤ limit then .ok p else .error .notJson := by
  obtain ⟨members, rfl⟩ := Json.eq_object object
  unfold decodeWith
  by_cases shallow : (Json.object members).depth ≤ limit
  · rw [faithful.read_write _ clean shallow]
    simp [shallow, described]
  · rw [faithful.too_deep _ clean (Nat.lt_of_not_le shallow)]
    simp [shallow]

theorem decodeWith_settled (numeric : c.Numeric) {t : Text} {p : Program} (decoded : decodeWith c t = .ok p) :
    Settled Program.isRegular Program.reals (Program.restamp id) p := by
  unfold decodeWith at decoded
  split at decoded
  next members read =>
    split at decoded
    next described =>
      cases decoded
      exact only_program (numeric _ _ read) _ described
    next => cases decoded
  next => cases decoded
  next => cases decoded

/-- A regular program that can be written is given again by its text, with its flags lowered. -/
theorem Program.decodeWith_encodeWith? (faithful : c.Faithful limit) (o : Encoding.Origin) {p : Program}
    (regular : p.isRegular) (texts : ∀ t ∈ p.texts, t.isUtf8) (reals : ∀ x ∈ p.reals, Readable x) :
    ∃ j, p.toJson? o = some j ∧ p.encodeWith? c o = some (c.write j) ∧ decodeWith c (c.write j) =
      if j.depth ≤ limit then .ok (p.restamp id) else .error .notJson := by
  obtain ⟨j, encoded, object, clean, described⟩ := toJson?_written o regular texts reals
  exact ⟨j, encoded, by rw [encodeWith?, encoded]; rfl, decodeWith_write faithful object clean described⟩

end Read

namespace Example

def nested : Nat → Body
  | 0 => .mk .zero [] false
  | k + 1 => .mk .zero [.block (nested k)] false

def blocks (k : Nat) : Program := ⟨.zero, nested k⟩

theorem regular_nested (k : Nat) : (nested k).isMissing = false ∧ Regular.body (nested k) := by
  induction k with
  | zero => decide
  | succ k ih =>
    refine ⟨rfl, ?_⟩
    rw [nested, Regular.body, Regular.statements, Regular.statement, ih.1, ih.2]
    decide

theorem texts_blocks (k : Nat) : (blocks k).texts = [] := by
  rw [Program.texts, blocks]
  induction k with
  | zero => rfl
  | succ k ih =>
    rw [nested, Texts.body, Texts.statements, Texts.statement, ih]
    rfl

theorem reals_blocks (k : Nat) : (blocks k).reals = [] := by
  rw [Program.reals, blocks]
  induction k with
  | zero => rfl
  | succ k ih =>
    rw [nested, Reals.body, Reals.statements, Reals.statement, ih]
    rfl

/-- Each block is an object and, for its statements, a list. -/
theorem depth_nested {o : Encoding.Origin} {k : Nat} {j : Json}
    (encoded : Encoding.body o (nested k) = some j) : 2 * k < j.depth := by
  induction k generalizing j with
  | zero =>
    cases encoded
    exact Nat.zero_lt_of_lt (Json.depth_get_lt Encoding.isObject_node [])
  | succ k ih =>
    rw [nested, Encoding.body, Encoding.statements, Encoding.statement, Encoding.statements] at encoded
    cases inner : Encoding.body o (nested k) with
    | none => simp [inner] at encoded
    | some i =>
      replace encoded : Encoding.node "Body" .zero [("statements", some (Encoding.sequence o false [i]))] = j := by
        simpa [inner] using encoded
      have outer := Json.depth_get_lt (encoded ▸ Encoding.isObject_node) (utf8 "statements")
      have item : i ∈ (Decoding.get "statements" j).itemsOrNone := by simp [← encoded]
      have within : i.depth < (Json.get (utf8 "statements") j).depth := Json.depth_itemsOrNone item
      have := ih inner
      omega

theorem regular_blocks (k : Nat) : (blocks k).isRegular := by
  have spanned : Regular.span .zero := by decide
  simp [Program.isRegular, blocks, spanned, regular_nested]

/-- Blocks nested deeper than the reader goes can be written, but not read. -/
theorem decodeWith_blocks {c : Json.Codec} {limit : Nat} (faithful : c.Faithful limit) (o : Encoding.Origin)
    {k : Nat} (deep : limit ≤ 2 * k) :
    ∃ t, (blocks k).encodeWith? c o = some t ∧ decodeWith c t = .error .notJson := by
  have texts : ∀ t ∈ (blocks k).texts, t.isUtf8 := by simp [texts_blocks]
  have reals : ∀ x ∈ (blocks k).reals, Readable x := by simp [reals_blocks]
  obtain ⟨j, encoded, text, decoded⟩ := Program.decodeWith_encodeWith? faithful o (regular_blocks k) texts reals
  have deeper : ¬ j.depth ≤ limit := by
    cases inner : Encoding.body o (nested k) with
    | none => simp [Program.toJson?, blocks, inner] at encoded
    | some i =>
      have same : Encoding.node "Program" .zero [("body", some i)] = j := by
        simpa [Program.toJson?, blocks, inner] using encoded
      have outer := Json.depth_get_lt (same ▸ Encoding.isObject_node) (utf8 "body")
      have part : Decoding.get "body" j = i := by simp [← same]
      rw [← Decoding.get, part] at outer
      have := depth_nested inner
      omega
  rw [if_neg deeper] at decoded
  exact ⟨_, text, decoded⟩

end Example

/-- A regular program with texts in UTF-8 and finite reals has a JSON text, which gives the program again,
with its flags lowered, if it is no deeper than the reader goes, and is refused otherwise. The program that
any text gives is regular, with finite reals and no flags, and so is given again by its own text, unless
that is too deep. Wherever the reader stops, some regular program is written and then refused. -/
theorem Program.decoding_undoes_encoding {c : Json.Codec} {limit : Nat} (faithful : c.Faithful limit) :
    (∀ (o : Encoding.Origin) (p : Program), p.isRegular → (∀ t ∈ p.texts, t.isUtf8) →
      (∀ x ∈ p.reals, Real.isFinite x) →
      (∀ x ∈ p.reals, Real.isFinite x → Real.read? (Real.serial.write x) = some x) →
      ∃ j t, p.toJson? o = some j ∧ p.encodeWith? c o = some t ∧ decodeWith c t =
        if j.depth ≤ limit then .ok (p.restamp id) else .error .notJson) ∧
    (∀ t p, decodeWith c t = .ok p →
      p.isRegular ∧ (∀ x ∈ p.reals, Real.isFinite x) ∧ p.restamp id = p) ∧
    (∀ (o : Encoding.Origin) t p, decodeWith c t = .ok p → (∀ t ∈ p.texts, t.isUtf8) →
      (∀ x ∈ p.reals, Real.isFinite x → Real.read? (Real.serial.write x) = some x) →
      ∃ j u, p.toJson? o = some j ∧ p.encodeWith? c o = some u ∧ decodeWith c u =
        if j.depth ≤ limit then .ok p else .error .notJson) ∧
    ∀ o : Encoding.Origin, ∃ p : Program, p.isRegular ∧ p.texts = [] ∧ p.reals = [] ∧
      ∃ t, p.encodeWith? c o = some t ∧ decodeWith c t = .error .notJson := by
  refine ⟨fun o p regular texts finite back => ?_, fun t p decoded => ?_,
    fun o t p decoded texts back => ?_, fun o => ?_⟩
  · have readable (x : Float) (held : x ∈ p.reals) : Readable x := ⟨finite x held, back x held (finite x held)⟩
    obtain ⟨j, encoded, text, again⟩ := decodeWith_encodeWith? faithful o regular texts readable
    exact ⟨j, _, encoded, text, again⟩
  · have settled := decodeWith_settled faithful.numeric decoded
    exact ⟨settled.regular, settled.finite, settled.same⟩
  · have settled := decodeWith_settled faithful.numeric decoded
    have readable (x : Float) (held : x ∈ p.reals) : Readable x :=
      ⟨settled.finite x held, back x held (settled.finite x held)⟩
    obtain ⟨j, encoded, text, again⟩ := decodeWith_encodeWith? faithful o settled.regular texts readable
    rw [settled.same] at again
    exact ⟨j, _, encoded, text, again⟩
  · have deep : limit ≤ 2 * limit := Nat.le_mul_of_pos_left limit Nat.zero_lt_two
    exact ⟨Example.blocks limit, Example.regular_blocks limit, Example.texts_blocks limit,
      Example.reals_blocks limit, Example.decodeWith_blocks faithful o deep⟩

namespace Example

def half : Float := Float.ofBits 0x3FF8000000000000

def only (p : Primary) : Expr := .mk .zero [.mk .zero none p none] []

/-- A program that declares a real and prints, in a block, a text and a sum. -/
def measured : Program :=
  ⟨⟨⟨1, 1⟩, ⟨2, 30⟩⟩, .mk .zero [.declare .zero (utf8 "x") (only (.literal .zero (.real .zero half))),
    .block (.mk .zero [.print .zero [only (.literal .zero (.string .zero (utf8 "≈ \""))),
      .mk .zero [.mk .zero (some (.known .minus)) (.ref .zero (utf8 "x") [.index .zero 0]) none,
        .mk .zero none (.read .zero (.known .int)) (some (.known .int))] [.known .add]]] false)] false⟩

end Example

open Example in
theorem Program.decoding_undoes_encoding_measured :
    ∃ t u, measured.encode? .parsed = some t ∧ decode t = .ok measured ∧
      measured.encode? .decoded = some u ∧ decode u = .ok measured := by
  have texts : ∀ t ∈ measured.texts, t.isUtf8 := by decide +kernel
  have reals : ∀ x ∈ measured.reals, Real.isFinite x ∧ Real.read? (Real.serial.write x) = some x := by
    intro x held
    obtain rfl : x = half := List.mem_singleton.mp held
    decide +kernel
  have shallow (o : Encoding.Origin) :
      (measured.toJson? o).all fun j => j.depth ≤ Json.Reading.maxDepth := by
    cases o <;> decide +kernel
  obtain ⟨written, -, rewritten, -⟩ := decoding_undoes_encoding Json.Codec.stream_faithful
  obtain ⟨j, t, encoded, text, decoded⟩ := written .parsed measured (by decide +kernel) texts
    (fun x held => (reals x held).1) fun x held _ => (reals x held).2
  rw [if_pos (by simpa [encoded] using shallow .parsed)] at decoded
  replace decoded : decode t = .ok measured := decoded
  obtain ⟨k, u, again, text', decoded'⟩ := rewritten .decoded _ _ decoded texts
    fun x held _ => (reals x held).2
  rw [if_pos (by simpa [again] using shallow .decoded)] at decoded'
  exact ⟨t, u, text, decoded, text', decoded'⟩

open Example in
/-- Five thousand blocks, one in another, are a regular program that is written but not read. -/
theorem deep_blocks_refused : (blocks 5000).isRegular ∧ (blocks 5000).texts = [] ∧
    (blocks 5000).reals = [] ∧
    ∃ t, (blocks 5000).encode? .parsed = some t ∧ decode t = .error .notJson :=
  ⟨regular_blocks 5000, texts_blocks 5000, reals_blocks 5000,
    decodeWith_blocks Json.Codec.stream_faithful .parsed (by decide)⟩

end CellScript
