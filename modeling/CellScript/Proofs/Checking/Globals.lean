import CellScript.Check

/-! The checks and the names bound before a program. Such names matter to nothing but the search for a
name that is used: declarations, parameters and keys are compared with what the program itself writes.
So more names take away the reports about exactly these names and change nothing else. -/
namespace CellScript.Check

/-- Whether the problem is that one of the names is not known. -/
def Problem.undefinedAmong (names : List Text) : Problem → Bool
  | .undefinedName name => names.contains name
  | _ => false

/-- The findings without those for which one of the names is not known. -/
def without (names : List Text) (fs : List Finding) : List Finding :=
  fs.filter fun f => !f.problem.undefinedAmong names

/-- What is known at one point, and what is known there if the names are bound before the program as
well. -/
structure Context.Learns (names : List Text) (c d : Context) : Prop where
  globals : ∀ name, name ∈ d.globals ↔ name ∈ c.globals ∨ name ∈ names
  hoisted : ∀ name, name ∈ d.hoisted ↔ name ∈ c.hoisted ∨ name ∈ names
  scopes : d.scopes = c.scopes
  inLoop : d.inLoop = c.inLoop
  inFunction : d.inFunction = c.inFunction

namespace Context.Learns

variable {names : List Text} {c d : Context}

theorem declares (learns : Learns names c d) (name : Text) : d.declares name = c.declares name := by
  rw [Context.declares, Context.declares, learns.scopes]

/-- The new names are known everywhere: to the statements because they are global, and to the function
bodies anyway. -/
theorem knows (learns : Learns names c d) (name : Text) :
    d.knows name = (c.knows name || names.contains name) := by
  rw [Bool.eq_iff_iff, Context.knows, Context.knows, learns.scopes, learns.inFunction]
  simp only [Bool.or_eq_true, Bool.and_eq_true, List.contains_iff_mem, learns.globals, learns.hoisted]
  grind

theorem declare (learns : Learns names c d) (name : Text) :
    Learns names (c.declare name) (d.declare name) := by
  unfold Context.declare
  rw [learns.scopes]
  cases c.scopes with
  | nil => exact learns
  | cons innermost outer =>
    exact ⟨learns.globals, learns.hoisted, rfl, learns.inLoop, learns.inFunction⟩

theorem enter (learns : Learns names c d) (own : List Text) :
    Learns names (c.enter own) (d.enter own) :=
  ⟨learns.globals, learns.hoisted, congrArg (own :: ·) learns.scopes, learns.inLoop, learns.inFunction⟩

theorem loop (learns : Learns names c d) :
    Learns names { c with inLoop := true } { d with inLoop := true } :=
  ⟨learns.globals, learns.hoisted, learns.scopes, rfl, learns.inFunction⟩

theorem enterFunction (learns : Learns names c d) (self : Text) (params : List Text) :
    Learns names (c.enterFunction self params) (d.enterFunction self params) := by
  have body : Learns names { c with inLoop := false, inFunction := true }
      { d with inLoop := false, inFunction := true } :=
    ⟨learns.globals, learns.hoisted, learns.scopes, rfl, rfl⟩
  unfold Context.enterFunction
  dsimp only
  split
  · exact body.enter params
  · exact (body.enter [self]).enter params

theorem after (learns : Learns names c d) (s : Statement) : Learns names (c.after s) (d.after s) := by
  cases s with
  | declare span name initial => exact learns.declare name
  | _ => exact learns

end Context.Learns

/-- The second findings are the first ones without the reports about the names. -/
def Sheds (names : List Text) (fs gs : List Finding) : Prop := gs = without names fs

namespace Sheds

variable {names : List Text} {c d : Context} {fs fs' gs gs' : List Finding}

theorem nil : Sheds names [] [] := rfl

theorem append (first : Sheds names fs gs) (second : Sheds names fs' gs') :
    Sheds names (fs ++ fs') (gs ++ gs') := by
  unfold Sheds without at *
  rw [List.filter_append, first, second]

/-- Reports about something else stay. -/
theorem of_others (others : ∀ f ∈ fs, f.problem.undefinedAmong names = false) : Sheds names fs fs :=
  (List.filter_eq_self.mpr fun f member => congrArg not (others f member)).symm

theorem report {bad : Bool} {problem : Problem} (other : problem.undefinedAmong names = false)
    (span : Span) : Sheds names (reportIf bad problem span) (reportIf bad problem span) := by
  refine of_others fun f member => ?_
  cases bad with
  | false => cases member
  | true =>
    rw [List.mem_singleton.mp member]
    exact other

/-- A name that is looked up is reported if it was and is none of the new ones. -/
theorem lookup (learns : Context.Learns names c d) (name : Text) (span : Span) :
    Sheds names (reportIf (!c.knows name) (.undefinedName name) span)
      (reportIf (!d.knows name) (.undefinedName name) span) := by
  rw [learns.knows]
  unfold Sheds without
  cases c.knows name with
  | true => rfl
  | false =>
    cases among : names.contains name <;>
      simp only [reportIf, List.filter, Problem.undefinedAmong, among, Bool.or_true, Bool.or_false,
        Bool.not_true, Bool.not_false, Bool.false_eq_true, if_true, if_false]

theorem duplicateParams (span : Span) (params seen : List Text) :
    Sheds names (duplicateParams span seen params) (duplicateParams span seen params) := by
  induction params generalizing seen with
  | nil => exact nil
  | cons p ps ih =>
    have here : Sheds names (reportIf (seen.contains p) (.duplicateParam p) span) _ := report rfl span
    exact here.append (ih (p :: seen))

end Sheds

/-! ### Every function of the walk -/

section Walk

variable {names : List Text}

mutual

theorem sheds_expr {c d : Context} (learns : Context.Learns names c d) (self : Text) :
    ∀ e, Sheds names (expr c self e) (expr d self e)
  | .missing => .nil
  | .mk _ [] _ => .nil
  | .mk _ [x] _ => sheds_operand learns self x
  | .mk _ (x :: y :: xs) _ => sheds_operands learns (x :: y :: xs)

theorem sheds_exprs {c d : Context} (learns : Context.Learns names c d) :
    ∀ es, Sheds names (exprs c es) (exprs d es)
  | [] => .nil
  | e :: es => (sheds_expr learns [] e).append (sheds_exprs learns es)

theorem sheds_operand {c d : Context} (learns : Context.Learns names c d) (self : Text) :
    ∀ x, Sheds names (operand c self x) (operand d self x)
  | .mk _ none p none => sheds_primary learns self p
  | .mk _ none p (some _) => sheds_primary learns [] p
  | .mk _ (some _) p _ => sheds_primary learns [] p

theorem sheds_operands {c d : Context} (learns : Context.Learns names c d) :
    ∀ xs, Sheds names (operands c xs) (operands d xs)
  | [] => .nil
  | x :: xs => (sheds_operand learns [] x).append (sheds_operands learns xs)

theorem sheds_primary {c d : Context} (learns : Context.Learns names c d) (self : Text) :
    ∀ p, Sheds names (primary c self p) (primary d self p)
  | .read _ _ => .nil
  | .ref span name ts => (Sheds.lookup learns name span).append (sheds_tails learns ts)
  | .literal _ l => sheds_literal learns self l
  | .paren _ inner => sheds_expr learns [] inner

theorem sheds_tail {c d : Context} (learns : Context.Learns names c d) :
    ∀ t, Sheds names (tail c t) (tail d t)
  | .index _ _ | .field _ _ => .nil
  | .subscript _ key => sheds_expr learns [] key
  | .call _ arguments => sheds_exprs learns arguments

theorem sheds_tails {c d : Context} (learns : Context.Learns names c d) :
    ∀ ts, Sheds names (tails c ts) (tails d ts)
  | [] => .nil
  | t :: ts => (sheds_tail learns t).append (sheds_tails learns ts)

theorem sheds_literal {c d : Context} (learns : Context.Learns names c d) (self : Text) :
    ∀ l, Sheds names (literal c self l) (literal d self l)
  | .array _ es => sheds_exprs learns es
  | .tuple _ es => sheds_elements learns [] es
  | .function span params b =>
    (Sheds.duplicateParams span params []).append
      (sheds_functionBody (learns.enterFunction self params) b)
  | .lambda span params result =>
    (Sheds.duplicateParams span params []).append
      (sheds_expr (learns.enterFunction self params) [] result)
  | .missing | .integer _ _ | .real _ _ | .boolean _ _ | .string _ _ | .empty _ => .nil

theorem sheds_elements {c d : Context} (learns : Context.Learns names c d) (seen : List Text) :
    ∀ es, Sheds names (elements c seen es) (elements d seen es)
  | [] => .nil
  | .mk span name value :: es =>
    ((sheds_expr learns [] value).append (.report rfl span)).append
      (sheds_elements learns (name :: seen) es)

theorem sheds_statement {c d : Context} (learns : Context.Learns names c d) :
    ∀ s, Sheds names (statement c s) (statement d s)
  | .declare span name initial => by
    unfold statement
    rw [learns.declares]
    exact (sheds_expr learns name initial).append (.report rfl span)
  | .assign _ target _ value => (sheds_primary learns [] target).append (sheds_expr learns [] value)
  | .branch _ condition yes no =>
    ((sheds_expr learns [] condition).append (sheds_body learns yes)).append (sheds_body learns no)
  | .forLoop _ counter low high b =>
    ((sheds_expr learns [] low).append (sheds_expr learns [] high)).append
      (sheds_body (learns.enter [counter]).loop b)
  | .whileLoop _ condition b => (sheds_expr learns [] condition).append (sheds_body learns.loop b)
  | .print _ arguments => sheds_exprs learns arguments
  | .ret span value => by
    unfold statement
    rw [learns.inFunction]
    exact .append (.report rfl span) (sheds_expr learns [] value)
  | .brk span => by
    unfold statement
    rw [learns.inLoop]
    exact .report rfl span
  | .cont span => by
    unfold statement
    rw [learns.inLoop]
    exact .report rfl span
  | .block b => sheds_body learns b

theorem sheds_statements {c d : Context} (learns : Context.Learns names c d) :
    ∀ ss, Sheds names (statements c ss) (statements d ss)
  | [] => .nil
  | s :: ss => (sheds_statement learns s).append (sheds_statements (learns.after s) ss)

theorem sheds_body {c d : Context} (learns : Context.Learns names c d) :
    ∀ b, Sheds names (body c b) (body d b)
  | .missing => .nil
  | .mk _ ss _ => sheds_statements (learns.enter []) ss

theorem sheds_functionBody {c d : Context} (learns : Context.Learns names c d) :
    ∀ b, Sheds names (functionBody c b) (functionBody d b)
  | .missing => .nil
  | .mk _ ss _ => sheds_statements learns ss

end

end Walk

/-- With more names bound before a program, the checks find what they found, in the same order, without
the reports that one of the new names is not known. -/
theorem program_without {globals more all : List Text}
    (union : ∀ name, name ∈ all ↔ name ∈ globals ∨ name ∈ more) (p : Program) :
    program all p = without more (program globals p) := by
  let ss := p.body.statements
  have learns : Context.Learns more ⟨globals, globals ++ declaredNames ss, [[]], false, false⟩
      ⟨all, all ++ declaredNames ss, [[]], false, false⟩ := by
    refine ⟨union, fun name => ?_, rfl, rfl, rfl⟩
    rw [List.mem_append, List.mem_append, union, or_right_comm]
  exact sheds_statements learns ss

/-- More names bound before a program make no error. -/
theorem anyError_of_more {globals all : List Text} (more : globals ⊆ all) {p : Program}
    (clean : anyError (program globals p) = false) : anyError (program all p) = false := by
  have union name : name ∈ all ↔ name ∈ globals ∨ name ∈ all :=
    ⟨.inr, fun either => either.elim (fun old => more old) id⟩
  rw [program_without union]
  unfold anyError at *
  rw [List.any_eq_false] at clean ⊢
  exact fun f member => clean f (List.mem_filter.mp member).1

end CellScript.Check
