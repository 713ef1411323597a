import CellScript.Proofs.Optimize.Invariance
import Mathlib.Data.List.Forall2
import Mathlib.Logic.Relation

/-! Trees that passes turn into one another. Two related trees differ at one level only in ways
that evaluation cannot tell apart, and their parts are related again; this is what a simulation
needs, in either direction. -/
namespace CellScript.Optimize

inductive Part where
  | expr (e : Expr)
  | operand (x : Operand)
  | primary (p : Primary)
  | tail (t : Tail)
  | literal (l : Literal)
  | element (e : Element)
  | statement (s : Statement)
  | body (b : Body)

namespace Part

def walk (r : Rules) : Part → Part
  | expr e => expr (Walk.expr r e).value
  | operand x => operand (Walk.operand r x).value
  | primary p => primary (Walk.primary r p).value
  | tail t => tail (Walk.tail r t).value
  | literal l => literal (Walk.literal r l).value
  | element e => element (Walk.element r e).value
  | statement s => statement (Walk.statement r s).value
  | body b => body (Walk.body r b).value

/-- The value that the part has wherever it is evaluated. -/
def constant? (assoc : Associativity) : Part → Option Value
  | expr e => exprConstant? assoc e
  | operand x => operandConstant? assoc x
  | primary p => primaryConstant? assoc p
  | _ => none

def idle (assoc : Associativity) : Part → Bool
  | statement s => Optimize.idle assoc s
  | body b => idleBody assoc b
  | _ => false

def leaves : Part → Bool
  | statement s => Optimize.leaves s
  | _ => false

variable {assoc : Associativity} {r : Rules}

theorem constant?_walk (sound : r.Sound assoc) (a : Part) :
    (a.walk r).constant? assoc = a.constant? assoc := by
  cases a with
  | expr e => exact exprConstant?_walk sound e
  | operand x => exact operandConstant?_walk sound x
  | primary p => exact primaryConstant?_walk sound p
  | tail _ | literal _ | element _ | statement _ | body _ => rfl

theorem idle_walk (sound : r.Sound assoc) (a : Part) : (a.walk r).idle assoc = a.idle assoc := by
  cases a with
  | statement s => exact Optimize.idle_walk sound s
  | body b => exact idleBody_walk sound b
  | expr _ | operand _ | primary _ | tail _ | literal _ | element _ => rfl

theorem leaves_walk (r : Rules) (a : Part) : (a.walk r).leaves = a.leaves := by
  cases a with
  | statement s => exact Optimize.leaves_walk r s
  | expr _ | operand _ | primary _ | tail _ | literal _ | element _ | body _ => rfl

end Part

/-- Lists of statements with the same effect: related statements stand side by side, idle ones
stand alone, a branch with a constant condition stands beside the body that runs, and what follows
a statement that leaves does not matter. -/
inductive Matched (assoc : Associativity) (T : Part → Part → Prop) :
    List Statement → List Statement → Prop where
  | nil : Matched assoc T [] []
  | cons {s t ss ts} (head : T (.statement s) (.statement t)) (rest : Matched assoc T ss ts) :
    Matched assoc T (s :: ss) (t :: ts)
  | leave {s t ss ts} (head : T (.statement s) (.statement t)) (left : leaves s = true)
      (right : leaves t = true) : Matched assoc T (s :: ss) (t :: ts)
  | idleLeft {s ss ts} (idles : idle assoc s = true) (rest : Matched assoc T ss ts) :
    Matched assoc T (s :: ss) ts
  | idleRight {t ss ts} (idles : idle assoc t = true) (rest : Matched assoc T ss ts) :
    Matched assoc T ss (t :: ts)
  | takenLeft {span condition yes no b ss ts} {holds : Bool}
      (constant : exprConstant? assoc condition = some (.bool holds))
      (taken : T (.body (if holds then yes else no)) (.body b)) (rest : Matched assoc T ss ts) :
    Matched assoc T (.branch span condition yes no :: ss) (.block b :: ts)
  | takenRight {span condition yes no b ss ts} {holds : Bool}
      (constant : exprConstant? assoc condition = some (.bool holds))
      (taken : T (.body b) (.body (if holds then yes else no))) (rest : Matched assoc T ss ts) :
    Matched assoc T (.block b :: ss) (.branch span condition yes no :: ts)

/-- How two trees with related parts may differ at the top. -/
inductive Step (assoc : Associativity) (T : Part → Part → Prop) : Part → Part → Prop where
  | noExpr : Step assoc T (.expr .missing) (.expr .missing)
  | expr {span xs ys ops} (operands : List.Forall₂ (fun x y => T (.operand x) (.operand y)) xs ys) :
    Step assoc T (.expr (.mk span xs ops)) (.expr (.mk span ys ops))
  | constant {e e' : Expr} {v : Value} (spans : e.span = e'.span)
      (left : exprConstant? assoc e = some v) (right : exprConstant? assoc e' = some v) :
    Step assoc T (.expr e) (.expr e')
  | operand {span op p p' test} (inside : T (.primary p) (.primary p')) :
    Step assoc T (.operand (.mk span op p test)) (.operand (.mk span op p' test))
  | read {span kind} : Step assoc T (.primary (.read span kind)) (.primary (.read span kind))
  | ref {span name ts us} (tails : List.Forall₂ (fun t u => T (.tail t) (.tail u)) ts us) :
    Step assoc T (.primary (.ref span name ts)) (.primary (.ref span name us))
  | value {span l l'} (inside : T (.literal l) (.literal l')) :
    Step assoc T (.primary (.literal span l)) (.primary (.literal span l'))
  | paren {span e e'} (inside : T (.expr e) (.expr e')) :
    Step assoc T (.primary (.paren span e)) (.primary (.paren span e'))
  | known {p p' : Primary} {v : Value} (left : primaryConstant? assoc p = some v)
      (right : primaryConstant? assoc p' = some v) : Step assoc T (.primary p) (.primary p')
  | index {span position} :
    Step assoc T (.tail (.index span position)) (.tail (.index span position))
  | field {span name} : Step assoc T (.tail (.field span name)) (.tail (.field span name))
  | subscript {span e e'} (inside : T (.expr e) (.expr e')) :
    Step assoc T (.tail (.subscript span e)) (.tail (.subscript span e'))
  | call {span es fs} (arguments : List.Forall₂ (fun e f => T (.expr e) (.expr f)) es fs) :
    Step assoc T (.tail (.call span es)) (.tail (.call span fs))
  | scalar {l : Literal} (same : l.isScalar = true ∨ l = .missing) :
    Step assoc T (.literal l) (.literal l)
  | array {span es fs} (elements : List.Forall₂ (fun e f => T (.expr e) (.expr f)) es fs) :
    Step assoc T (.literal (.array span es)) (.literal (.array span fs))
  | tuple {span es fs} (elements : List.Forall₂ (fun e f => T (.element e) (.element f)) es fs) :
    Step assoc T (.literal (.tuple span es)) (.literal (.tuple span fs))
  | function {span params b b'} (inside : T (.body b) (.body b')) :
    Step assoc T (.literal (.function span params b)) (.literal (.function span params b'))
  | lambda {span params e e'} (inside : T (.expr e) (.expr e')) :
    Step assoc T (.literal (.lambda span params e)) (.literal (.lambda span params e'))
  | element {span name e e'} (inside : T (.expr e) (.expr e')) :
    Step assoc T (.element (.mk span name e)) (.element (.mk span name e'))
  | declare {span name e e'} (initial : T (.expr e) (.expr e')) :
    Step assoc T (.statement (.declare span name e)) (.statement (.declare span name e'))
  | assign {span p p' op e e'} (target : T (.primary p) (.primary p'))
      (value : T (.expr e) (.expr e')) :
    Step assoc T (.statement (.assign span p op e)) (.statement (.assign span p' op e'))
  | branch {span e e' b b' c c'} (condition : T (.expr e) (.expr e')) (yes : T (.body b) (.body b'))
      (no : T (.body c) (.body c')) :
    Step assoc T (.statement (.branch span e b c)) (.statement (.branch span e' b' c'))
  | forLoop {span counter e e' f f' b b'} (low : T (.expr e) (.expr e'))
      (high : T (.expr f) (.expr f')) (inside : T (.body b) (.body b')) :
    Step assoc T (.statement (.forLoop span counter e f b))
      (.statement (.forLoop span counter e' f' b'))
  | whileLoop {span e e' b b'} (condition : T (.expr e) (.expr e'))
      (inside : T (.body b) (.body b')) :
    Step assoc T (.statement (.whileLoop span e b)) (.statement (.whileLoop span e' b'))
  | print {span es fs} (arguments : List.Forall₂ (fun e f => T (.expr e) (.expr f)) es fs) :
    Step assoc T (.statement (.print span es)) (.statement (.print span fs))
  | ret {span e e'} (value : T (.expr e) (.expr e')) :
    Step assoc T (.statement (.ret span e)) (.statement (.ret span e'))
  | brk {span} : Step assoc T (.statement (.brk span)) (.statement (.brk span))
  | cont {span} : Step assoc T (.statement (.cont span)) (.statement (.cont span))
  | block {b b'} (inside : T (.body b) (.body b')) :
    Step assoc T (.statement (.block b)) (.statement (.block b'))
  | noBody : Step assoc T (.body .missing) (.body .missing)
  | body {span ss ts c c'} (statements : Matched assoc T ss ts) :
    Step assoc T (.body (.mk span ss c)) (.body (.mk span ts c'))

/-- Every two related trees differ only so. -/
def Faithful (assoc : Associativity) (T : Part → Part → Prop) : Prop :=
  ∀ a b, T a b → Step assoc T a b

variable {assoc : Associativity} {T : Part → Part → Prop}

/-! ### Both directions -/

theorem Matched.flip {ss ts : List Statement} (matched : Matched assoc T ss ts) :
    Matched assoc (Function.swap T) ts ss := by
  induction matched with
  | nil => exact .nil
  | cons head _ ih => exact .cons head ih
  | leave head left right => exact .leave head right left
  | idleLeft idles _ ih => exact .idleRight idles ih
  | idleRight idles _ ih => exact .idleLeft idles ih
  | takenLeft constant taken _ ih => exact .takenRight constant taken ih
  | takenRight constant taken _ ih => exact .takenLeft constant taken ih

theorem Step.flip {a b : Part} (step : Step assoc T a b) : Step assoc (Function.swap T) b a := by
  cases step with
  | noExpr => exact .noExpr
  | expr operands => exact .expr operands.flip
  | constant spans left right => exact .constant spans.symm right left
  | operand inside => exact .operand inside
  | read => exact .read
  | ref tails => exact .ref tails.flip
  | value inside => exact .value inside
  | paren inside => exact .paren inside
  | known left right => exact .known right left
  | index => exact .index
  | field => exact .field
  | subscript inside => exact .subscript inside
  | call arguments => exact .call arguments.flip
  | scalar same => exact .scalar same
  | array elements => exact .array elements.flip
  | tuple elements => exact .tuple elements.flip
  | function inside => exact .function inside
  | lambda inside => exact .lambda inside
  | element inside => exact .element inside
  | declare initial => exact .declare initial
  | assign target value => exact .assign target value
  | branch condition yes no => exact .branch condition yes no
  | forLoop low high inside => exact .forLoop low high inside
  | whileLoop condition inside => exact .whileLoop condition inside
  | print arguments => exact .print arguments.flip
  | ret value => exact .ret value
  | brk => exact .brk
  | cont => exact .cont
  | block inside => exact .block inside
  | noBody => exact .noBody
  | body statements => exact .body statements.flip

theorem Faithful.flip (faithful : Faithful assoc T) : Faithful assoc (Function.swap T) :=
  fun a b related => (faithful b a related).flip

/-! ### Passes one after another -/

/-- The second part is what some passes leave of the first one. -/
def Revision (assoc : Associativity) : Part → Part → Prop :=
  Relation.ReflTransGen fun a b => ∃ pass : Pass, b = a.walk (pass.rules assoc)

namespace Revision

variable {a b : Part}

theorem refl (a : Part) : Revision assoc a a := Relation.ReflTransGen.refl

theorem walk (related : Revision assoc a b) (pass : Pass) :
    Revision assoc a (b.walk (pass.rules assoc)) :=
  related.tail ⟨pass, rfl⟩

theorem constant?_eq (related : Revision assoc a b) : a.constant? assoc = b.constant? assoc := by
  induction related with
  | refl => rfl
  | tail _ passed ih =>
    obtain ⟨pass, rfl⟩ := passed
    rw [ih, Part.constant?_walk (pass.rules_sound assoc)]

theorem idle_eq (related : Revision assoc a b) : a.idle assoc = b.idle assoc := by
  induction related with
  | refl => rfl
  | tail _ passed ih =>
    obtain ⟨pass, rfl⟩ := passed
    rw [ih, Part.idle_walk (pass.rules_sound assoc)]

theorem leaves_eq (related : Revision assoc a b) : a.leaves = b.leaves := by
  induction related with
  | refl => rfl
  | tail _ passed ih =>
    obtain ⟨pass, rfl⟩ := passed
    rw [ih, Part.leaves_walk]

theorem block {b b' : Body} (related : Revision assoc (.body b) (.body b')) :
    Revision assoc (.statement (.block b)) (.statement (.block b')) := by
  refine related.lift (fun | .body b => Part.statement (.block b) | a => a) ?_
  rintro a c ⟨pass, rfl⟩
  exact ⟨pass, by cases a <;> rfl⟩

/-- What became a branch was one. -/
theorem branch_inv {span : Span} {condition : Expr} {yes no : Body}
    (related : Revision assoc a (.statement (.branch span condition yes no))) :
    ∃ condition' yes' no', a = .statement (.branch span condition' yes' no') ∧
      Revision assoc (.expr condition') (.expr condition) ∧
      Revision assoc (.body yes') (.body yes) ∧ Revision assoc (.body no') (.body no) := by
  induction related using Relation.ReflTransGen.head_induction_on with
  | refl => exact ⟨_, _, _, rfl, refl _, refl _, refl _⟩
  | @head a c passed _ ih =>
    obtain ⟨pass, rfl⟩ := passed
    obtain ⟨condition', yes', no', same, first, second, third⟩ := ih
    match a, same with
    | .statement (.branch _ e b c), same =>
      cases same
      exact ⟨e, b, c, rfl, .head ⟨pass, rfl⟩ first, .head ⟨pass, rfl⟩ second,
        .head ⟨pass, rfl⟩ third⟩

theorem forall₂_walk {α β : Type} {f : α → Part} {g : β → Part} {xs : List α} {ys : List β}
    (related : List.Forall₂ (fun x y => Revision assoc (f x) (g y)) xs ys) (pass : Pass) {h : β → β}
    (walked : ∀ y, g (h y) = (g y).walk (pass.rules assoc)) :
    List.Forall₂ (fun x y => Revision assoc (f x) (g y)) xs (ys.map h) := by
  rw [List.forall₂_map_right_iff]
  refine related.imp fun x y head => ?_
  rw [walked]
  exact head.walk pass

theorem matched_walk {ss ts : List Statement} (matched : Matched assoc (Revision assoc) ss ts)
    (pass : Pass) : Matched assoc (Revision assoc) ss
      (Walk.statements (pass.rules assoc) ts).value := by
  have sound := pass.rules_sound assoc
  induction matched with
  | nil => exact .nil
  | cons head _ ih => exact .cons (head.walk pass) ih
  | leave head left right =>
    exact .leave (head.walk pass) left ((leaves_walk _ _).trans right)
  | idleLeft idles _ ih => exact .idleLeft idles ih
  | idleRight idles _ ih => exact .idleRight ((idle_walk sound _).trans idles) ih
  | takenLeft constant taken _ ih => exact .takenLeft constant (taken.walk pass) ih
  | @takenRight _ _ _ _ _ _ _ holds constant taken _ ih =>
    refine .takenRight ((exprConstant?_walk sound _).trans constant) ?_ ih
    cases holds <;> exact taken.walk pass

/-- The idle statements and the branches that pruning takes away stood beside ones of the same
kind, or were alone already. -/
theorem matched_prune {ss ts us : List Statement} (matched : Matched assoc (Revision assoc) ss ts)
    (pruned : Pruned assoc ts us) : Matched assoc (Revision assoc) ss us := by
  induction matched generalizing us with
  | nil =>
    cases pruned
    exact .nil
  | cons head _ ih =>
    cases pruned with
    | keep _ rest => exact .cons head (ih rest)
    | drop idles rest => exact .idleLeft (head.idle_eq.trans idles) (ih rest)
    | @take _ _ _ _ _ _ holds constant rest =>
      obtain ⟨_, _, _, same, first, second, third⟩ := head.branch_inv
      cases same
      refine .takenLeft (first.constant?_eq.trans constant) ?_ (ih rest)
      cases holds with
      | true => exact second
      | false => exact third
    | leave leaving _ => exact .leave head (head.leaves_eq.trans leaving) leaving
  | leave head left right =>
    cases pruned with
    | keep _ rest => exact .leave head left right
    | drop idles rest => exact absurd idles (by simp [idle_eq_false_of_leaves right])
    | take constant rest => cases right
    | leave leaving _ => exact .leave head left right
  | idleLeft idles _ ih => exact .idleLeft idles (ih pruned)
  | idleRight idles _ ih =>
    cases pruned with
    | keep _ rest => exact .idleRight idles (ih rest)
    | drop _ rest => exact ih rest
    | take constant rest => exact .idleRight ((idle_branch constant).symm.trans idles) (ih rest)
    | leave leaving _ => exact absurd idles (by simp [idle_eq_false_of_leaves leaving])
  | takenLeft constant taken _ ih =>
    cases pruned with
    | keep _ rest => exact .takenLeft constant taken (ih rest)
    | drop idles rest =>
      exact .idleLeft ((idle_branch constant).trans (taken.idle_eq.trans idles)) (ih rest)
    | leave leaving _ => cases leaving
  | takenRight constant taken _ ih =>
    cases pruned with
    | keep _ rest => exact .takenRight constant taken (ih rest)
    | drop idles rest =>
      have chosen := (idle_branch constant).symm.trans idles
      exact .idleLeft (taken.idle_eq.trans chosen) (ih rest)
    | take constant' rest =>
      cases constant.symm.trans constant'
      exact .cons (block taken) (ih rest)
    | leave leaving _ => cases leaving

end Revision

theorem Walk.expr_span {r : Rules} (sound : r.Sound assoc) (e : Expr) :
    (Walk.expr r e).value.span = e.span := by
  cases e with
  | missing => rfl
  | mk span xs ops =>
    rw [Walk.expr_mk]
    cases ruled : r.expr (.mk span (Walk.operands r xs).value ops) with
    | none => rfl
    | some e =>
      obtain ⟨l, v, rfl, -, -⟩ := sound.expr _ _ ruled
      rfl

theorem Matched.refl (ss : List Statement) : Matched assoc (Revision assoc) ss ss := by
  induction ss with
  | nil => exact .nil
  | cons s ss ih => exact .cons (.refl _) ih

theorem Step.refl (a : Part) : Step assoc (Revision assoc) a a := by
  have same {α : Type} (f : α → Part) (xs : List α) :
      List.Forall₂ (fun x y => Revision assoc (f x) (f y)) xs xs :=
    List.forall₂_same.mpr fun _ _ => .refl _
  match a with
  | .expr .missing => exact .noExpr
  | .expr (.mk _ xs _) => exact .expr (same _ xs)
  | .operand (.mk ..) => exact .operand (.refl _)
  | .primary (.read ..) => exact .read
  | .primary (.ref _ _ ts) => exact .ref (same _ ts)
  | .primary (.literal ..) => exact .value (.refl _)
  | .primary (.paren ..) => exact .paren (.refl _)
  | .tail (.index ..) => exact .index
  | .tail (.field ..) => exact .field
  | .tail (.subscript ..) => exact .subscript (.refl _)
  | .tail (.call _ es) => exact .call (same _ es)
  | .literal .missing => exact .scalar (.inr rfl)
  | .literal (.integer ..) | .literal (.real ..) | .literal (.boolean ..) | .literal (.string ..)
  | .literal (.empty _) => exact .scalar (.inl rfl)
  | .literal (.array _ es) => exact .array (same _ es)
  | .literal (.tuple _ es) => exact .tuple (same _ es)
  | .literal (.function ..) => exact .function (.refl _)
  | .literal (.lambda ..) => exact .lambda (.refl _)
  | .element (.mk ..) => exact .element (.refl _)
  | .statement (.declare ..) => exact .declare (.refl _)
  | .statement (.assign ..) => exact .assign (.refl _) (.refl _)
  | .statement (.branch ..) => exact .branch (.refl _) (.refl _) (.refl _)
  | .statement (.forLoop ..) => exact .forLoop (.refl _) (.refl _) (.refl _)
  | .statement (.whileLoop ..) => exact .whileLoop (.refl _) (.refl _)
  | .statement (.print _ es) => exact .print (same _ es)
  | .statement (.ret ..) => exact .ret (.refl _)
  | .statement (.brk _) => exact .brk
  | .statement (.cont _) => exact .cont
  | .statement (.block _) => exact .block (.refl _)
  | .body .missing => exact .noBody
  | .body (.mk _ ss _) => exact .body (.refl ss)

/-- One more pass. -/
theorem Step.walk {a b : Part} (step : Step assoc (Revision assoc) a b)
    (related : Revision assoc a b) (pass : Pass) :
    Step assoc (Revision assoc) a (b.walk (pass.rules assoc)) := by
  have sound := pass.rules_sound assoc
  have constants := (related.walk pass).constant?_eq
  cases step with
  | noExpr => exact .noExpr
  | @expr span xs ys ops operands =>
    have operands := Revision.forall₂_walk operands pass (fun _ => rfl)
    rw [← Walk.operands_value] at operands
    simp only [Part.walk, Walk.expr_mk] at constants ⊢
    cases ruled : (pass.rules assoc).expr (.mk span (Walk.operands _ ys).value ops) with
    | none => exact .expr operands
    | some e =>
      obtain ⟨l, v, rfl, value, known⟩ := sound.expr _ _ ruled
      have right : exprConstant? assoc (.mk span [.mk span none (.literal span l) none] []) = some v :=
        (exprConstant?_plain span span span l).trans value
      rw [ruled] at constants
      exact .constant rfl (constants.trans right) right
  | constant spans left right =>
    exact .constant (spans.trans (Walk.expr_span sound _).symm) left
      ((exprConstant?_walk sound _).trans right)
  | operand inside => exact .operand (inside.walk pass)
  | read => exact .read
  | @ref span name ts us tails =>
    have tails := Revision.forall₂_walk tails pass (fun _ => rfl)
    rw [← Walk.tails_value] at tails
    exact .ref tails
  | value inside => exact .value (inside.walk pass)
  | @paren span e e' inside =>
    simp only [Part.walk, Walk.primary_paren] at constants ⊢
    cases ruled : (pass.rules assoc).paren (.paren span (Walk.expr _ e').value) with
    | none => exact .paren (inside.walk pass)
    | some p =>
      obtain ⟨span', inner, l, v, same, rfl, value, known⟩ := sound.paren _ _ ruled
      cases same
      rw [ruled] at constants
      exact .known (constants.trans value) value
  | known left right => exact .known left ((primaryConstant?_walk sound _).trans right)
  | index => exact .index
  | field => exact .field
  | subscript inside => exact .subscript (inside.walk pass)
  | call arguments =>
    have arguments := Revision.forall₂_walk arguments pass (fun _ => rfl)
    rw [← Walk.exprs_value] at arguments
    exact .call arguments
  | @scalar l same =>
    have stays : (Walk.literal (pass.rules assoc) l).value = l := by
      cases l <;> first | rfl | simp [Literal.isScalar] at same
    simp only [Part.walk, stays]
    exact .scalar same
  | array elements =>
    have elements := Revision.forall₂_walk elements pass (fun _ => rfl)
    rw [← Walk.exprs_value] at elements
    exact .array elements
  | tuple elements =>
    have elements := Revision.forall₂_walk elements pass (fun _ => rfl)
    rw [← Walk.elements_value] at elements
    exact .tuple elements
  | function inside => exact .function (inside.walk pass)
  | lambda inside => exact .lambda (inside.walk pass)
  | element inside => exact .element (inside.walk pass)
  | declare initial => exact .declare (initial.walk pass)
  | assign target value => exact .assign (target.walk pass) (value.walk pass)
  | branch condition yes no =>
    exact .branch (condition.walk pass) (yes.walk pass) (no.walk pass)
  | forLoop low high inside =>
    exact .forLoop (low.walk pass) (high.walk pass) (inside.walk pass)
  | whileLoop condition inside => exact .whileLoop (condition.walk pass) (inside.walk pass)
  | print arguments =>
    have arguments := Revision.forall₂_walk arguments pass (fun _ => rfl)
    rw [← Walk.exprs_value] at arguments
    exact .print arguments
  | ret value => exact .ret (value.walk pass)
  | brk => exact .brk
  | cont => exact .cont
  | block inside => exact .block (inside.walk pass)
  | noBody => exact .noBody
  | @body span ss ts c c' statements =>
    have statements := Revision.matched_walk statements pass
    simp only [Part.walk, Walk.body_mk]
    cases ruled : (pass.rules assoc).body (.mk span (Walk.statements _ ts).value c') with
    | none => exact .body statements
    | some b =>
      obtain ⟨span', us, vs, d, d', same, rfl, pruned⟩ := sound.body _ _ ruled
      cases same
      exact .body (Revision.matched_prune statements pruned)

theorem revision_faithful (assoc : Associativity) : Faithful assoc (Revision assoc) := by
  intro a b related
  induction related with
  | refl => exact .refl a
  | tail related passed ih =>
    obtain ⟨pass, rfl⟩ := passed
    exact ih.walk related pass

/-! ### The whole optimisation -/

theorem round_revision (assoc : Associativity) (passes : List Pass) (p : Program) {a : Part}
    (related : Revision assoc a (.body p.body)) :
    Revision assoc a (.body (round assoc passes p).value.body) := by
  induction passes generalizing p with
  | nil => exact related
  | cons pass passes ih => exact ih _ (related.walk pass)

/-- What the rounds leave of a program is a revision of it. -/
theorem rounds_revision (assoc : Associativity) (passes : List Pass) (bound : Nat) (p : Program)
    {a : Part} (related : Revision assoc a (.body p.body)) :
    Revision assoc a (.body (rounds assoc passes bound p).2.body) := by
  induction bound generalizing p with
  | zero => exact related
  | succ bound ih =>
    have once := round_revision assoc passes p related
    unfold rounds
    dsimp only
    split
    · exact ih _ once
    · exact once

end CellScript.Optimize
