import CellScript.Parser
import CellScript.Proofs.Checking.Walk
import CellScript.Proofs.Optimize.Invariance

/-! What the checks say of a tree that passes went over. A pass moves nothing into another scope, and
what it takes away declares nothing that is still in sight. Only function bodies look further: they
count on every name that the top level declares, also on one whose declaration is gone. -/
namespace CellScript

namespace Check

/-- Nothing is wrong but that some of these names are unknown where they are used. -/
def Lacks (lost : Text → Prop) (fs : List Finding) : Prop :=
  ∀ f ∈ fs, f.isError = true → ∃ name, f.problem = .undefinedName name ∧ lost name

section

variable {lost more : Text → Prop} {fs gs : List Finding}

theorem lacks_nil : Lacks lost [] := fun _ none => absurd none List.not_mem_nil

theorem lacks_append : Lacks lost (fs ++ gs) ↔ Lacks lost fs ∧ Lacks lost gs :=
  List.forall_mem_append

theorem Lacks.mono (lacks : Lacks lost fs) (wider : ∀ name, lost name → more name) :
    Lacks more fs := by
  intro f member serious
  obtain ⟨name, problem, gone⟩ := lacks f member serious
  exact ⟨name, problem, wider name gone⟩

theorem lacks_of_clean (clean : Clean fs) : Lacks lost fs := by
  intro f member serious
  rw [Clean, anyError, List.any_eq_false] at clean
  exact absurd serious (clean f member)

theorem Lacks.clean (lacks : Lacks lost fs) (nothing : ∀ name, ¬ lost name) : Clean fs := by
  rw [Clean, anyError, List.any_eq_false]
  intro f member serious
  obtain ⟨name, -, gone⟩ := lacks f member serious
  exact nothing name gone

end

namespace Context

/-- The context in which the top level declares other names. -/
def recalling (c : Context) (names : List Text) : Context := { c with hoisted := names }

variable (c : Context) (names : List Text)

@[simp] theorem recalling_enter (more : List Text) :
    (c.recalling names).enter more = (c.enter more).recalling names := rfl

@[simp] theorem recalling_inLoop (inside : Bool) :
    { c.recalling names with inLoop := inside } = { c with inLoop := inside }.recalling names := rfl

@[simp] theorem recalling_enterFunction (self : Text) (params : List Text) :
    (c.recalling names).enterFunction self params =
      (c.enterFunction self params).recalling names := by
  unfold enterFunction
  cases self.isEmpty <;> rfl

@[simp] theorem recalling_after (s : Statement) :
    (c.recalling names).after s = (c.after s).recalling names := by
  cases s with
  | declare span name initial =>
    obtain ⟨_, _, scopes, _, _⟩ := c
    cases scopes <;> rfl
  | _ => rfl

end Context

end Check

namespace Optimize

open Check

variable {assoc : Associativity} {r : Rules} {G H : List Text} {lost : Text → Prop}

theorem after_walk (r : Rules) (c : Context) (s : Statement) :
    c.after (Walk.statement r s).value = c.after s := by
  cases s <;> rfl

theorem after_of_idle {s : Statement} (idles : idle assoc s = true) (c : Context) :
    c.after s = c := by
  cases s with
  | declare => cases idles
  | _ => rfl

/-- Taking statements away that do nothing, or that nothing reaches, breaks no rule. -/
theorem Pruned.lacks {ss ts : List Statement} (pruned : Pruned assoc ss ts) {c : Context}
    (lacks : Lacks lost (statements c ss)) : Lacks lost (statements c ts) := by
  induction pruned generalizing c with
  | nil => exact lacks
  | keep s _ ih =>
    obtain ⟨first, rest⟩ := lacks_append.mp lacks
    exact lacks_append.mpr ⟨first, ih rest⟩
  | drop idles _ ih =>
    apply ih
    have rest := (lacks_append.mp lacks).2
    rw [after_of_idle idles] at rest
    exact rest
  | @take _ _ _ _ _ _ holds _ _ ih =>
    obtain ⟨branch, rest⟩ := lacks_append.mp lacks
    obtain ⟨yes, no⟩ := lacks_append.mp branch
    refine lacks_append.mpr ⟨?_, ih rest⟩
    cases holds with
    | true => exact (lacks_append.mp yes).2
    | false => exact no
  | leave _ ss => exact lacks_append.mpr ⟨(lacks_append.mp lacks).1, lacks_nil⟩

theorem lacks_scalar {l : Literal} {v : Value} (scalar : scalarValue? l = some v) (c : Context)
    (self : Text) : Lacks lost (literal c self l) := by
  cases l with
  | integer | real | boolean | string | empty => exact lacks_nil
  | missing | array | tuple | function | lambda => cases scalar

theorem lacks_ruled_expr (sound : r.Sound assoc) {c : Context} {self : Text} {e : Expr}
    (lacks : Lacks lost (expr c self e)) : Lacks lost (expr c self ((r.expr e).getD e)) := by
  cases ruled : r.expr e with
  | none => exact lacks
  | some e' =>
    obtain ⟨l, v, rfl, scalar, -⟩ := sound.expr _ _ ruled
    exact lacks_scalar scalar c self

/-- A name that was known still is, or is one of those whose declaration is gone. -/
theorem lacks_reference (kept : ∀ name ∈ G, name ∈ H ∨ lost name) {c : Context} {name : Text}
    {span : Span}
    (lacks : Lacks lost (reportIf (!(c.recalling G).knows name) (.undefinedName name) span)) :
    Lacks lost (reportIf (!(c.recalling H).knows name) (.undefinedName name) span) := by
  by_cases known : (c.recalling H).knows name = true
  · rw [known]
    exact lacks_nil
  rw [Bool.not_eq_true] at known
  intro f member _
  rw [known] at member
  obtain rfl := List.mem_singleton.mp member
  refine ⟨name, rfl, ?_⟩
  by_cases before : (c.recalling G).knows name = true
  · rw [← Bool.not_eq_true, Context.knows_iff, not_or, not_or] at known
    obtain ⟨local', seed, later⟩ := known
    rcases Context.knows_iff.mp before with old | old | ⟨inside, old⟩
    · exact absurd old local'
    · exact absurd old seed
    · exact (kept name old).resolve_left fun still => later ⟨inside, still⟩
  · rw [Bool.not_eq_true] at before
    rw [before] at lacks
    obtain ⟨_, same, gone⟩ := lacks _ (List.mem_singleton_self _) rfl
    cases same
    exact gone

namespace Walk

/-- A rule for bodies prunes what is left of the statements. -/
theorem pruned_body (sound : r.Sound assoc) (b : Body) :
    Pruned assoc (statements r b.statements).value (body r b).value.statements := by
  cases b with
  | missing => exact .nil
  | mk span ss cleared =>
    rw [body_mk]
    cases ruled : r.body (.mk span (statements r ss).value cleared) with
    | none => exact .refl _
    | some b =>
      obtain ⟨_, _, _, _, _, same, rfl, pruned⟩ := sound.body _ _ ruled
      cases same
      exact pruned

mutual

theorem lacks_expr (sound : r.Sound assoc) (kept : ∀ name ∈ G, name ∈ H ∨ lost name) :
    ∀ (c : Context) (self : Text) (e : Expr), Lacks lost (Check.expr (c.recalling G) self e) →
      Lacks lost (Check.expr (c.recalling H) self (expr r e).value)
  | _, _, .missing, _ => lacks_nil
  | _, _, .mk span [] ops, _ => by
    rw [expr_mk]
    exact lacks_ruled_expr sound lacks_nil
  | c, self, .mk span [x] ops, lacks => by
    rw [expr_mk]
    exact lacks_ruled_expr sound (lacks_operand sound kept c self x lacks)
  | c, self, .mk span (x :: y :: xs) ops, lacks => by
    rw [expr_mk]
    exact lacks_ruled_expr sound (lacks_operands sound kept c (x :: y :: xs) lacks)

theorem lacks_exprs (sound : r.Sound assoc) (kept : ∀ name ∈ G, name ∈ H ∨ lost name) :
    ∀ (c : Context) (es : List Expr), Lacks lost (Check.exprs (c.recalling G) es) →
      Lacks lost (Check.exprs (c.recalling H) (exprs r es).value)
  | _, [], _ => lacks_nil
  | c, e :: es, lacks => by
    obtain ⟨first, rest⟩ := lacks_append.mp lacks
    exact lacks_append.mpr ⟨lacks_expr sound kept c [] e first, lacks_exprs sound kept c es rest⟩

theorem lacks_operand (sound : r.Sound assoc) (kept : ∀ name ∈ G, name ∈ H ∨ lost name) :
    ∀ (c : Context) (self : Text) (x : Operand),
      Lacks lost (Check.operand (c.recalling G) self x) →
      Lacks lost (Check.operand (c.recalling H) self (operand r x).value)
  | c, self, .mk _ none p none, lacks => lacks_primary sound kept c self p lacks
  | c, _, .mk _ none p (some _), lacks => lacks_primary sound kept c [] p lacks
  | c, _, .mk _ (some _) p none, lacks => lacks_primary sound kept c [] p lacks
  | c, _, .mk _ (some _) p (some _), lacks => lacks_primary sound kept c [] p lacks

theorem lacks_operands (sound : r.Sound assoc) (kept : ∀ name ∈ G, name ∈ H ∨ lost name) :
    ∀ (c : Context) (xs : List Operand), Lacks lost (Check.operands (c.recalling G) xs) →
      Lacks lost (Check.operands (c.recalling H) (operands r xs).value)
  | _, [], _ => lacks_nil
  | c, x :: xs, lacks => by
    obtain ⟨first, rest⟩ := lacks_append.mp lacks
    exact lacks_append.mpr
      ⟨lacks_operand sound kept c [] x first, lacks_operands sound kept c xs rest⟩

theorem lacks_primary (sound : r.Sound assoc) (kept : ∀ name ∈ G, name ∈ H ∨ lost name) :
    ∀ (c : Context) (self : Text) (p : Primary),
      Lacks lost (Check.primary (c.recalling G) self p) →
      Lacks lost (Check.primary (c.recalling H) self (primary r p).value)
  | _, _, .read _ _, _ => lacks_nil
  | c, _, .ref _ _ ts, lacks => by
    obtain ⟨name, rest⟩ := lacks_append.mp lacks
    exact lacks_append.mpr ⟨lacks_reference kept name, lacks_tails sound kept c ts rest⟩
  | c, self, .literal _ l, lacks => lacks_literal sound kept c self l lacks
  | c, self, .paren span inner, lacks => by
    have walked := lacks_expr sound kept c [] inner lacks
    rw [primary_paren]
    cases ruled : r.paren (.paren span (expr r inner).value) with
    | none => exact walked
    | some p =>
      obtain ⟨_, _, l, v, -, rfl, scalar, -⟩ := sound.paren _ _ ruled
      exact lacks_scalar scalar _ _

theorem lacks_tail (sound : r.Sound assoc) (kept : ∀ name ∈ G, name ∈ H ∨ lost name) :
    ∀ (c : Context) (t : Tail), Lacks lost (Check.tail (c.recalling G) t) →
      Lacks lost (Check.tail (c.recalling H) (tail r t).value)
  | _, .index _ _, _ | _, .field _ _, _ => lacks_nil
  | c, .subscript _ key, lacks => lacks_expr sound kept c [] key lacks
  | c, .call _ arguments, lacks => lacks_exprs sound kept c arguments lacks

theorem lacks_tails (sound : r.Sound assoc) (kept : ∀ name ∈ G, name ∈ H ∨ lost name) :
    ∀ (c : Context) (ts : List Tail), Lacks lost (Check.tails (c.recalling G) ts) →
      Lacks lost (Check.tails (c.recalling H) (tails r ts).value)
  | _, [], _ => lacks_nil
  | c, t :: ts, lacks => by
    obtain ⟨first, rest⟩ := lacks_append.mp lacks
    exact lacks_append.mpr ⟨lacks_tail sound kept c t first, lacks_tails sound kept c ts rest⟩

theorem lacks_literal (sound : r.Sound assoc) (kept : ∀ name ∈ G, name ∈ H ∨ lost name) :
    ∀ (c : Context) (self : Text) (l : Literal),
      Lacks lost (Check.literal (c.recalling G) self l) →
      Lacks lost (Check.literal (c.recalling H) self (literal r l).value)
  | _, _, .missing, _ | _, _, .integer _ _, _ | _, _, .real _ _, _ | _, _, .boolean _ _, _
  | _, _, .string _ _, _ | _, _, .empty _, _ => lacks_nil
  | c, _, .array _ es, lacks => lacks_exprs sound kept c es lacks
  | c, _, .tuple _ es, lacks => lacks_elements sound kept c [] es lacks
  | c, self, .function _ params b, lacks => by
    obtain ⟨names, code⟩ := lacks_append.mp lacks
    refine lacks_append.mpr ⟨names, ?_⟩
    rw [Context.recalling_enterFunction] at code ⊢
    exact lacks_functionBody sound kept (c.enterFunction self params) b code
  | c, self, .lambda _ params result, lacks => by
    obtain ⟨names, code⟩ := lacks_append.mp lacks
    refine lacks_append.mpr ⟨names, ?_⟩
    rw [Context.recalling_enterFunction] at code ⊢
    exact lacks_expr sound kept (c.enterFunction self params) [] result code

theorem lacks_elements (sound : r.Sound assoc) (kept : ∀ name ∈ G, name ∈ H ∨ lost name) :
    ∀ (c : Context) (seen : List Text) (es : List Element),
      Lacks lost (Check.elements (c.recalling G) seen es) →
      Lacks lost (Check.elements (c.recalling H) seen (elements r es).value)
  | _, _, [], _ => lacks_nil
  | c, seen, .mk _ name value :: es, lacks => by
    obtain ⟨first, rest⟩ := lacks_append.mp lacks
    obtain ⟨inside, key⟩ := lacks_append.mp first
    have walked := lacks_expr sound kept c [] value inside
    exact lacks_append.mpr
      ⟨lacks_append.mpr ⟨walked, key⟩, lacks_elements sound kept c (name :: seen) es rest⟩

theorem lacks_statement (sound : r.Sound assoc) (kept : ∀ name ∈ G, name ∈ H ∨ lost name) :
    ∀ (c : Context) (s : Statement), Lacks lost (Check.statement (c.recalling G) s) →
      Lacks lost (Check.statement (c.recalling H) (statement r s).value)
  | c, .declare _ name initial, lacks => by
    obtain ⟨first, again⟩ := lacks_append.mp lacks
    exact lacks_append.mpr ⟨lacks_expr sound kept c name initial first, again⟩
  | c, .assign _ target _ value, lacks => by
    obtain ⟨first, second⟩ := lacks_append.mp lacks
    exact lacks_append.mpr
      ⟨lacks_primary sound kept c [] target first, lacks_expr sound kept c [] value second⟩
  | c, .branch _ condition yes no, lacks => by
    obtain ⟨first, third⟩ := lacks_append.mp lacks
    obtain ⟨first, second⟩ := lacks_append.mp first
    have walked := lacks_append.mpr
      ⟨lacks_expr sound kept c [] condition first, lacks_body sound kept c yes second⟩
    exact lacks_append.mpr ⟨walked, lacks_body sound kept c no third⟩
  | c, .forLoop _ counter low high b, lacks => by
    obtain ⟨first, third⟩ := lacks_append.mp lacks
    obtain ⟨first, second⟩ := lacks_append.mp first
    have walked := lacks_append.mpr
      ⟨lacks_expr sound kept c [] low first, lacks_expr sound kept c [] high second⟩
    exact lacks_append.mpr
      ⟨walked, lacks_body sound kept { c.enter [counter] with inLoop := true } b third⟩
  | c, .whileLoop _ condition b, lacks => by
    obtain ⟨first, second⟩ := lacks_append.mp lacks
    exact lacks_append.mpr ⟨lacks_expr sound kept c [] condition first,
      lacks_body sound kept { c with inLoop := true } b second⟩
  | c, .print _ arguments, lacks => lacks_exprs sound kept c arguments lacks
  | c, .ret _ value, lacks => by
    obtain ⟨first, second⟩ := lacks_append.mp lacks
    exact lacks_append.mpr ⟨first, lacks_expr sound kept c [] value second⟩
  | _, .brk _, lacks | _, .cont _, lacks => lacks
  | c, .block b, lacks => lacks_body sound kept c b lacks

theorem lacks_statements (sound : r.Sound assoc) (kept : ∀ name ∈ G, name ∈ H ∨ lost name) :
    ∀ (c : Context) (ss : List Statement), Lacks lost (Check.statements (c.recalling G) ss) →
      Lacks lost (Check.statements (c.recalling H) (statements r ss).value)
  | _, [], _ => lacks_nil
  | c, s :: ss, lacks => by
    obtain ⟨first, rest⟩ := lacks_append.mp lacks
    refine lacks_append.mpr ⟨lacks_statement sound kept c s first, ?_⟩
    rw [Context.recalling_after] at rest
    rw [Context.recalling_after, after_walk]
    exact lacks_statements sound kept (c.after s) ss rest

theorem lacks_body (sound : r.Sound assoc) (kept : ∀ name ∈ G, name ∈ H ∨ lost name) :
    ∀ (c : Context) (b : Body), Lacks lost (Check.body (c.recalling G) b) →
      Lacks lost (Check.body (c.recalling H) (body r b).value)
  | _, .missing, _ => lacks_nil
  | c, .mk span ss cleared, lacks => by
    rw [Check.body_eq]
    exact (pruned_body sound _).lacks (lacks_statements sound kept (c.enter []) ss lacks)

theorem lacks_functionBody (sound : r.Sound assoc) (kept : ∀ name ∈ G, name ∈ H ∨ lost name) :
    ∀ (c : Context) (b : Body), Lacks lost (Check.functionBody (c.recalling G) b) →
      Lacks lost (Check.functionBody (c.recalling H) (body r b).value)
  | _, .missing, _ => lacks_nil
  | c, .mk span ss cleared, lacks => by
    rw [Check.functionBody_eq]
    exact (pruned_body sound _).lacks (lacks_statements sound kept c ss lacks)

end

end Walk

/-! ### Declarations at the top level -/

theorem declaredNames_cons (s : Statement) (ss : List Statement) :
    declaredNames (s :: ss) = declaredNames [s] ++ declaredNames ss :=
  List.filterMap_append (l := [s])

theorem declaredNames_of_idle {s : Statement} (idles : idle assoc s = true) :
    declaredNames [s] = [] := by
  cases s with
  | declare => cases idles
  | _ => rfl

theorem leaves_of_idle {s : Statement} (idles : idle assoc s = true) : leaves s = false := by
  cases s with
  | ret | brk | cont => cases idles
  | _ => rfl

theorem declaredNames_walk (r : Rules) (ss : List Statement) :
    declaredNames (Walk.statements r ss).value = declaredNames ss := by
  induction ss with
  | nil => rfl
  | cons s ss ih =>
    change declaredNames ((Walk.statement r s).value :: (Walk.statements r ss).value) = _
    rw [declaredNames_cons, declaredNames_cons s, ih]
    cases s <;> rfl

theorem Pruned.declared_sublist {ss ts : List Statement} (pruned : Pruned assoc ss ts) :
    (declaredNames ts).Sublist (declaredNames ss) := by
  induction pruned with
  | nil => exact .refl _
  | @keep ss ts s _ ih =>
    rw [declaredNames_cons s ss, declaredNames_cons s ts]
    exact ih.append_left _
  | @drop s ss _ _ _ ih =>
    rw [declaredNames_cons s ss]
    exact ih.trans (List.sublist_append_right _ _)
  | take _ _ ih => exact ih
  | @leave s _ ss =>
    rw [declaredNames_cons s ss]
    exact List.sublist_append_left _ _

/-- What is declared before the top level is left stays declared. -/
theorem Pruned.declared_upToLeaving {ss ts : List Statement} (pruned : Pruned assoc ss ts) :
    declaredNames (upToLeaving ts) = declaredNames (upToLeaving ss) := by
  induction pruned with
  | nil => rfl
  | @keep ss ts s _ ih =>
    simp only [upToLeaving]
    split
    · rfl
    · rw [declaredNames_cons s, declaredNames_cons s (upToLeaving ss), ih]
  | @drop s ss ts idles _ ih =>
    rw [ih, upToLeaving, leaves_of_idle idles, if_neg Bool.false_ne_true, declaredNames_cons,
      declaredNames_of_idle idles, List.nil_append]
  | take _ _ ih => exact ih
  | @leave s leaving ss => simp only [upToLeaving, leaving, if_true]

theorem upToLeaving_walk (r : Rules) (ss : List Statement) :
    upToLeaving (Walk.statements r ss).value = (Walk.statements r (upToLeaving ss)).value := by
  induction ss with
  | nil => rfl
  | cons s ss ih =>
    change upToLeaving ((Walk.statement r s).value :: (Walk.statements r ss).value) = _
    simp only [upToLeaving, leaves_walk, ih]
    split <;> rfl

theorem declaredNames_liveParts (s : Statement) :
    declaredNames ((liveParts s).getD [s]) = declaredNames [s] := by
  cases s with
  | branch span condition yes no =>
    simp only [liveParts]
    cases literalCondition? condition with
    | none => rfl
    | some holds =>
      simp only [Option.map_some, Option.getD_some]
      split
      · split <;> rfl
      · split <;> rfl
  | whileLoop span condition b =>
    simp only [liveParts]
    split <;> rfl
  | _ => rfl

theorem declaredNames_live (ss : List Statement) :
    declaredNames (ss.flatMap fun s => (liveParts s).getD [s]) = declaredNames ss := by
  induction ss with
  | nil => rfl
  | cons s ss ih =>
    have split (ts us : List Statement) :
        declaredNames (ts ++ us) = declaredNames ts ++ declaredNames us := List.filterMap_append
    rw [List.flatMap_cons, split, ih, declaredNames_liveParts, ← declaredNames_cons]

/-- The passes that take no declaration away. -/
theorem declaredNames_runPass {pass : Pass} (other : pass ≠ .unreachable) (p : Program) :
    declaredNames (runPass assoc p pass).value.body.statements =
      declaredNames p.body.statements := by
  obtain ⟨span, _ | ⟨_, ss, cleared⟩⟩ := p
  · rfl
  · change declaredNames (Walk.body (pass.rules assoc) (.mk _ ss cleared)).value.statements = _
    rw [Walk.body_mk]
    cases pass with
    | constantFolding => exact declaredNames_walk _ ss
    | deadBranches =>
      have walked := declaredNames_walk (Pass.rules assoc .deadBranches) ss
      simp only [Pass.rules, dropDeadBranches] at walked ⊢
      split
      · exact (declaredNames_live _).trans walked
      · exact walked
    | unreachable => exact absurd rfl other

/-! ### Passes over a program -/

/-- A name that the top level of the first program declares, that was not bound before it, and that
the top level of the second one declares no more. -/
def Dropped (globals : List Text) (p q : Program) (name : Text) : Prop :=
  name ∈ declaredNames p.body.statements ∧ name ∉ globals ∧ name ∉ declaredNames q.body.statements

/-- The second program declares nothing new, still declares what is in reach, and lacks only names
that it dropped. -/
structure Fades (globals : List Text) (p q : Program) : Prop where
  declared : (declaredNames q.body.statements).Sublist (declaredNames p.body.statements)
  reached : declaredNames (upToLeaving q.body.statements) =
    declaredNames (upToLeaving p.body.statements)
  lacks : Lacks (Dropped globals p q) (Check.program globals q)

namespace Fades

variable {globals : List Text} {p q : Program}

theorem start (clean : Clean (Check.program globals p)) : Fades globals p p :=
  ⟨.refl _, rfl, lacks_of_clean clean⟩

theorem runPass (fades : Fades globals p q) (pass : Pass) :
    Fades globals p (runPass assoc q pass).value := by
  have sound := pass.rules_sound assoc
  have pruned := Walk.pruned_body sound q.body
  have declared := pruned.declared_sublist
  rw [declaredNames_walk] at declared
  have reached := pruned.declared_upToLeaving
  rw [upToLeaving_walk, declaredNames_walk] at reached
  refine ⟨declared.trans fades.declared, reached.trans fades.reached, ?_⟩
  have before : Lacks (Dropped globals p (Optimize.runPass assoc q pass).value)
      (Check.program globals q) := by
    refine fades.lacks.mono ?_
    rintro name ⟨old, unbound, gone⟩
    exact ⟨old, unbound, fun still => gone (declared.subset still)⟩
  -- a function body may look for any name that was declared before this pass
  refine pruned.lacks (Walk.lacks_statements sound ?_ ⟨globals, [], [[]], false, false⟩ _ before)
  intro name known
  by_cases seed : name ∈ globals
  · exact .inl (List.mem_append_left _ seed)
  have old := (List.mem_append.mp known).resolve_left seed
  by_cases still : name ∈ declaredNames (Optimize.runPass assoc q pass).value.body.statements
  · exact .inl (List.mem_append_right _ still)
  · exact .inr ⟨fades.declared.subset old, seed, still⟩

theorem round (fades : Fades globals p q) (passes : List Pass) :
    Fades globals p (round assoc passes q).value := by
  induction passes generalizing q with
  | nil => exact fades
  | cons pass passes ih => exact ih (fades.runPass pass)

theorem rounds (fades : Fades globals p q) (passes : List Pass) (bound : Nat) :
    Fades globals p (rounds assoc passes bound q).2 := by
  induction bound generalizing q with
  | zero => exact fades
  | succ bound ih =>
    have once : Fades globals p (Optimize.round assoc passes q).value := fades.round passes
    simp only [Optimize.rounds]
    split
    · exact ih once
    · exact once

end Fades

theorem declaredNames_round {passes : List Pass} (none : .unreachable ∉ passes) (p : Program) :
    declaredNames (round assoc passes p).value.body.statements =
      declaredNames p.body.statements := by
  induction passes generalizing p with
  | nil => rfl
  | cons pass passes ih =>
    rw [List.mem_cons, not_or] at none
    exact (ih none.2 _).trans (declaredNames_runPass (Ne.symm none.1) p)

theorem declaredNames_rounds {passes : List Pass} (none : .unreachable ∉ passes) (bound : Nat)
    (p : Program) :
    declaredNames (rounds assoc passes bound p).2.body.statements =
      declaredNames p.body.statements := by
  induction bound generalizing p with
  | zero => rfl
  | succ bound ih =>
    have once : declaredNames (round assoc passes p).value.body.statements =
        declaredNames p.body.statements := declaredNames_round none p
    simp only [rounds]
    split
    · exact (ih _).trans once
    · exact once

/-- What the checks accept they accept after any passes, but for one thing: the pass that takes
unreachable statements away may take declarations from the top level that functions counted on. Every
error is that such a name, declared only after the top level was left and not bound before the
program, is undefined. -/
theorem optimised_lacks_unreached {globals : List Text} {p : Program}
    (clean : Clean (Check.program globals p)) (assoc : Associativity) (passes : List Pass)
    (bound : Nat) :
    Lacks (fun name => .unreachable ∈ passes ∧ name ∈ declaredNames p.body.statements ∧
        name ∉ declaredNames (upToLeaving p.body.statements) ∧ name ∉ globals)
      (Check.program globals (rounds assoc passes bound p).2) := by
  have fades : Fades globals p (rounds assoc passes bound p).2 :=
    (Fades.start clean).rounds passes bound
  refine fades.lacks.mono ?_
  rintro name ⟨old, unbound, gone⟩
  refine ⟨?_, old, fun reached => ?_, unbound⟩
  · refine Decidable.byContradiction fun none => ?_
    rw [declaredNames_rounds none] at gone
    exact gone old
  · rw [← fades.reached] at reached
    exact gone (((upToLeaving_sublist _).filterMap _).subset reached)

namespace Example

/-- Every pass finds something to do here, and the function is the only one to use names that are
declared after it. -/
def busy : Text :=
  utf8 "var f := func => x + y; var x := 2 * 3; while false loop end var y := 1; return; print f()"

/-- The function counts on a declaration that is never reached. -/
def unreached : Text := utf8 "var f := func => x; return; var x := 1"

theorem exists_of_parsed {source : Text} {holds : Program → Bool}
    (parsed : (Parser.parse source).toOption.any holds = true) :
    ∃ p, Parser.parse source = .ok p ∧ holds p = true := by
  cases parses : Parser.parse source with
  | error e =>
    rw [parses] at parsed
    cases parsed
  | ok p =>
    rw [parses] at parsed
    exact ⟨p, rfl, parsed⟩

end Example

open CellScript.Optimize.Example in
/-- Here the passes take no declaration away, so the checks accept what they leave. -/
theorem optimised_lacks_unreached_busy :
    ∃ p, Parser.parse busy = .ok p ∧ Clean (Check.program [] p) ∧
      (rounds .right Pass.all 16 p).1 = 1 ∧
      Clean (Check.program [] (rounds .right Pass.all 16 p).2) := by
  have parsed : (Parser.parse busy).toOption.any (fun p => decide (Clean (Check.program [] p) ∧
      (rounds .right Pass.all 16 p).1 = 1 ∧
      ∀ name ∈ declaredNames p.body.statements,
        name ∈ declaredNames (upToLeaving p.body.statements))) = true := by decide +kernel
  obtain ⟨p, parses, holds⟩ := exists_of_parsed parsed
  obtain ⟨clean, once, reached⟩ := of_decide_eq_true holds
  refine ⟨p, parses, clean, once, (optimised_lacks_unreached clean _ _ _).clean ?_⟩
  rintro name ⟨-, old, gone, -⟩
  exact gone (reached name old)

open CellScript.Optimize.Example in
/-- The checks accept a program and refuse what the passes leave of it: the declaration of a name is
gone, but a function that uses it is not. -/
theorem optimised_refused :
    ∃ p, Parser.parse unreached = .ok p ∧ Clean (Check.program [] p) ∧
      ¬ Clean (Check.program [] (rounds .right Pass.all 16 p).2) := by
  have parsed : (Parser.parse unreached).toOption.any (fun p => decide (Clean (Check.program [] p) ∧
      ¬ Clean (Check.program [] (rounds .right Pass.all 16 p).2))) = true := by decide +kernel
  obtain ⟨p, parses, holds⟩ := exists_of_parsed parsed
  exact ⟨p, parses, of_decide_eq_true holds⟩

end Optimize

end CellScript
