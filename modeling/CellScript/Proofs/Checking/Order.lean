import CellScript.Check
import CellScript.Proofs.Parsing.Spans

/-! The order of findings. The checks report a name that is declared again, or a key that a tuple
repeats, after they looked at the value that stands there, and everything else before they look at what
stands below. So findings come by the places at which they are reported: the end of the node for these
two, its start for all others. By the starts of their nodes they are in order up to this: a finding
reported late may start before findings about its own parts. -/
namespace CellScript.Check

/-- Whether the problem is reported after what the parts of its node report. -/
def Problem.late : Problem → Bool
  | .redeclared _ | .duplicateKey _ => true
  | _ => false

namespace Finding

/-- The place in the source at which the walk reports it. -/
def moment (f : Finding) : Position := if f.problem.late then f.span.stop else f.span.start

/-- The first finding may be reported before the second one: its place is no later, and it starts no
later unless the second one comes late and spans it. -/
structure Precedes (f g : Finding) : Prop where
  moment : f.moment ≤ g.moment
  start : f.span.start ≤ g.span.start ∨
    g.problem.late = true ∧ g.span.start < f.span.start ∧ f.span.stop ≤ g.span.stop

/-- It is about something between two places. -/
structure Within (lo hi : Position) (f : Finding) : Prop where
  start : lo ≤ f.span.start
  proper : f.span.start ≤ f.span.stop
  stop : f.span.stop ≤ hi

namespace Within

variable {lo mid hi : Position} {f g : Finding}

theorem le_moment (within : f.Within lo hi) : lo ≤ f.moment := by
  unfold moment
  split
  · exact within.start.trans within.proper
  · exact within.start

theorem moment_le (within : f.Within lo hi) : f.moment ≤ hi := by
  unfold moment
  split
  · exact within.stop
  · exact within.proper.trans within.stop

theorem mono {lo' hi' : Position} (within : f.Within lo hi) (start : lo' ≤ lo) (stop : hi ≤ hi') :
    f.Within lo' hi' :=
  ⟨start.trans within.start, within.proper, within.stop.trans stop⟩

theorem precedes (first : f.Within lo mid) (second : g.Within mid hi) : f.Precedes g where
  moment := first.moment_le.trans second.le_moment
  start := .inl ((first.proper.trans first.stop).trans second.start)

end Within

end Finding

/-- Findings about something between two places, in the order of their moments. -/
structure Ordered (lo hi : Position) (fs : List Finding) : Prop where
  within : ∀ f ∈ fs, f.Within lo hi
  pairwise : fs.Pairwise Finding.Precedes

namespace Ordered

variable {lo mid hi : Position} {fs gs : List Finding}

theorem nil : Ordered lo hi [] := ⟨fun _ member => absurd member List.not_mem_nil, .nil⟩

theorem mono {lo' hi' : Position} (ordered : Ordered lo hi fs) (start : lo' ≤ lo) (stop : hi ≤ hi') :
    Ordered lo' hi' fs :=
  ⟨fun f member => (ordered.within f member).mono start stop, ordered.pairwise⟩

theorem append (first : Ordered lo mid fs) (second : Ordered mid hi gs) (start : lo ≤ mid)
    (stop : mid ≤ hi) : Ordered lo hi (fs ++ gs) where
  within f member := by
    obtain member | member := List.mem_append.mp member
    · exact (first.within f member).mono le_rfl stop
    · exact (second.within f member).mono start le_rfl
  pairwise := List.pairwise_append.mpr ⟨first.pairwise, second.pairwise, fun f member g member' =>
    (first.within f member).precedes (second.within g member')⟩

/-- What a node reports early comes before what its parts report. -/
theorem cons_early {f : Finding} (early : f.problem.late = false) (proper : f.span.start ≤ f.span.stop)
    (rest : Ordered f.span.start f.span.stop fs) : Ordered f.span.start f.span.stop (f :: fs) where
  within := List.forall_mem_cons.mpr ⟨⟨le_rfl, proper, le_rfl⟩, rest.within⟩
  pairwise := by
    refine .cons (fun g member => ?_) rest.pairwise
    have inside := rest.within g member
    refine ⟨?_, .inl inside.start⟩
    have here : f.moment = f.span.start := if_neg (by simp [early])
    rw [here]
    exact inside.le_moment

/-- What a node reports late comes after what its parts report. -/
theorem concat_late {f : Finding} (late : f.problem.late = true) (proper : f.span.start ≤ f.span.stop)
    (rest : Ordered f.span.start f.span.stop fs) : Ordered f.span.start f.span.stop (fs ++ [f]) where
  within g member := by
    obtain member | member := List.mem_append.mp member
    · exact rest.within g member
    · rw [List.mem_singleton.mp member]
      exact ⟨le_rfl, proper, le_rfl⟩
  pairwise := by
    refine List.pairwise_append.mpr ⟨rest.pairwise, List.pairwise_singleton _ _, fun g member f' same => ?_⟩
    rw [List.mem_singleton.mp same]
    have inside := rest.within g member
    have here : f.moment = f.span.stop := if_pos late
    refine ⟨by rw [here]; exact inside.moment_le, ?_⟩
    obtain lt | le := lt_or_ge f.span.start g.span.start
    · exact .inr ⟨late, lt, inside.stop⟩
    · exact .inl le

end Ordered

/-- Nodes that stand behind one another between two places. -/
structure Lined (lo hi : Position) (xs : List Subtree) : Prop where
  proper : lo ≤ hi
  within : ∀ x ∈ xs, lo ≤ x.span.start ∧ x.span.start ≤ x.span.stop ∧ x.span.stop ≤ hi
  ordered : xs.Pairwise fun x y => x.span.stop ≤ y.span.start

/-- Nodes can be taken apart: there is a place between the first ones and the others. -/
theorem Lined.split {lo hi : Position} {xs ys : List Subtree} (lined : Lined lo hi (xs ++ ys)) :
    ∃ mid, Lined lo mid xs ∧ Lined mid hi ys := by
  obtain ⟨first, second, across⟩ := List.pairwise_append.mp lined.ordered
  have before x (member : x ∈ xs) := lined.within x (List.mem_append_left ys member)
  have behind y (member : y ∈ ys) := lined.within y (List.mem_append_right xs member)
  cases ys with
  | nil =>
    exact ⟨hi, ⟨lined.proper, before, first⟩, ⟨le_rfl, fun _ member => absurd member List.not_mem_nil, .nil⟩⟩
  | cons y ys =>
    obtain ⟨start, proper, stop⟩ := behind y List.mem_cons_self
    refine ⟨y.span.start, ⟨start, fun x member => ?_, first⟩, ⟨proper.trans stop, fun z member => ?_, second⟩⟩
    · obtain ⟨start', proper', -⟩ := before x member
      exact ⟨start', proper', across x member y List.mem_cons_self⟩
    · obtain ⟨-, proper', stop'⟩ := behind z member
      refine ⟨?_, proper', stop'⟩
      obtain rfl | later := List.mem_cons.mp member
      · exact le_rfl
      · exact proper.trans ((List.pairwise_cons.mp second).1 z later)

section Walk

variable {ts : List Token}

/-- What the walk reports about nodes in a row: if they are nested, the findings are in order between
any two places with the nodes between them. -/
def Tells (ts : List Token) (xs : List Subtree) (fs : List Finding) : Prop :=
  (∀ x ∈ xs, Parser.Nested ts x) → ∀ lo hi, Lined lo hi xs → Ordered lo hi fs

theorem proper_of_covers (ascending : Lexer.Ascending ts) {i j : Nat} {span : Span}
    (covers : span.Covers ts i j) : span.start ≤ span.stop := by
  obtain ⟨le, a, b, first, last, rfl⟩ := covers
  exact (ascending.1 a (List.mem_of_getElem? first)).trans (ascending.stop_le first last le)

/-- The parts of a nested node stand in a row within it. -/
theorem lined_parts (ascending : Lexer.Ascending ts) {x : Subtree} (nested : Parser.Nested ts x)
    (proper : x.span.start ≤ x.span.stop) : Lined x.span.start x.span.stop x.parts := by
  have placed := nested x (.refl x)
  refine ⟨proper, fun y part => ?_, placed.ordered⟩
  obtain ⟨start, stop⟩ := placed.within y part
  obtain ⟨i, j, covers⟩ := (nested y (.step part (.refl y))).covers
  exact ⟨start, proper_of_covers ascending covers, stop⟩

namespace Tells

variable {x : Subtree} {xs ys : List Subtree} {fs gs es : List Finding}

theorem nil : Tells ts xs [] := fun _ _ _ _ => .nil

theorem append (first : Tells ts xs fs) (second : Tells ts ys gs) : Tells ts (xs ++ ys) (fs ++ gs) := by
  intro nested lo hi lined
  obtain ⟨mid, before, behind⟩ := lined.split
  have ordered := first (fun x member => nested x (List.mem_append_left ys member)) lo mid before
  have ordered' := second (fun x member => nested x (List.mem_append_right xs member)) mid hi behind
  exact ordered.append ordered' before.proper behind.proper

/-- From the findings about the parts of a node to those about the node. -/
theorem of_parts (ascending : Lexer.Ascending ts) (parts : Tells ts x.parts fs)
    (own : x.span.start ≤ x.span.stop → Ordered x.span.start x.span.stop fs →
      Ordered x.span.start x.span.stop gs) : Tells ts [x] gs := by
  intro nested lo hi lined
  obtain ⟨start, proper, stop⟩ := lined.within x List.mem_cons_self
  have here := nested x List.mem_cons_self
  have below y (part : y ∈ x.parts) : Parser.Nested ts y := fun z under => here z (.step part under)
  have ordered := parts below _ _ (lined_parts ascending here proper)
  exact (own proper ordered).mono start stop

theorem node (ascending : Lexer.Ascending ts) (parts : Tells ts x.parts fs) : Tells ts [x] fs :=
  of_parts ascending parts fun _ ordered => ordered

theorem early (ascending : Lexer.Ascending ts) (parts : Tells ts x.parts fs)
    (own : ∀ f ∈ es, f.problem.late = false ∧ f.span = x.span) : Tells ts [x] (es ++ fs) := by
  refine of_parts ascending parts fun proper ordered => ?_
  induction es with
  | nil => exact ordered
  | cons f es ih =>
    obtain ⟨⟨early, span⟩, own⟩ := List.forall_mem_cons.mp own
    have rest := ih own
    rw [← span] at rest proper ⊢
    exact rest.cons_early early proper

theorem late (ascending : Lexer.Ascending ts) (parts : Tells ts x.parts fs) {bad : Bool}
    {problem : Problem} (late : problem.late = true) :
    Tells ts [x] (fs ++ reportIf bad problem x.span) := by
  refine of_parts ascending parts fun proper ordered => ?_
  cases bad with
  | false => rwa [reportIf, if_neg Bool.false_ne_true, List.append_nil]
  | true => exact ordered.concat_late (f := ⟨problem, x.span⟩) late proper

theorem report (ascending : Lexer.Ascending ts) (parts : Tells ts x.parts fs) {bad : Bool}
    {problem : Problem} (early : problem.late = false) :
    Tells ts [x] (reportIf bad problem x.span ++ fs) := by
  refine .early ascending parts fun f member => ?_
  unfold reportIf at member
  split at member
  · rw [List.mem_singleton.mp member]
    exact ⟨early, rfl⟩
  · cases member

/-- A node without parts reports at most something about itself. -/
theorem alone (ascending : Lexer.Ascending ts) (none : x.parts = []) {bad : Bool} {problem : Problem}
    (early : problem.late = false) : Tells ts [x] (reportIf bad problem x.span) := by
  rw [← List.append_nil (reportIf bad problem x.span)]
  refine .report ascending ?_ early
  rw [none]
  exact nil

end Tells

theorem duplicateParams_own (span : Span) (params seen : List Text) :
    ∀ f ∈ duplicateParams span seen params, f.problem.late = false ∧ f.span = span := by
  induction params generalizing seen with
  | nil => exact fun _ member => absurd member List.not_mem_nil
  | cons p ps ih =>
    intro f member
    obtain member | member := List.mem_append.mp member
    · split at member
      · rw [List.mem_singleton.mp member]
        exact ⟨rfl, rfl⟩
      · cases member
    · exact ih (p :: seen) f member

/-! ### Every function of the walk -/

mutual

theorem tells_expr (ascending : Lexer.Ascending ts) (c : Context) (self : Text) :
    ∀ e, Tells ts (Subtree.ofExpr e) (expr c self e)
  | .missing => .nil
  | .mk _ [] _ => .node ascending .nil
  | .mk _ [x] _ => .node ascending (tells_operand ascending c self x)
  | .mk _ (x :: y :: xs) _ => .node ascending (tells_operands ascending c (x :: y :: xs))

theorem tells_exprs (ascending : Lexer.Ascending ts) (c : Context) :
    ∀ es, Tells ts (es.flatMap Subtree.ofExpr) (exprs c es)
  | [] => .nil
  | e :: es => (tells_expr ascending c [] e).append (tells_exprs ascending c es)

theorem tells_operand (ascending : Lexer.Ascending ts) (c : Context) (self : Text) :
    ∀ x, Tells ts [.operand x] (operand c self x)
  | .mk _ none p none => .node ascending (tells_primary ascending c self p)
  | .mk _ none p (some _) => .node ascending (tells_primary ascending c [] p)
  | .mk _ (some _) p _ => .node ascending (tells_primary ascending c [] p)

theorem tells_operands (ascending : Lexer.Ascending ts) (c : Context) :
    ∀ xs, Tells ts (xs.map .operand) (operands c xs)
  | [] => .nil
  | x :: xs => (tells_operand ascending c [] x).append (tells_operands ascending c xs)

theorem tells_primary (ascending : Lexer.Ascending ts) (c : Context) (self : Text) :
    ∀ p, Tells ts [.primary p] (primary c self p)
  | .read _ _ => .nil
  | .ref span name tails =>
    .report (x := .primary (.ref span name tails)) ascending (tells_tails ascending c tails) rfl
  | .literal _ l => .node ascending (tells_literal ascending c self l)
  | .paren _ inner => .node ascending (tells_expr ascending c [] inner)

theorem tells_tail (ascending : Lexer.Ascending ts) (c : Context) :
    ∀ t, Tells ts [.tail t] (tail c t)
  | .index _ _ | .field _ _ => .nil
  | .subscript _ key => .node ascending (tells_expr ascending c [] key)
  | .call _ arguments => .node ascending (tells_exprs ascending c arguments)

theorem tells_tails (ascending : Lexer.Ascending ts) (c : Context) :
    ∀ tails, Tells ts (tails.map .tail) (Check.tails c tails)
  | [] => .nil
  | t :: tails => (tells_tail ascending c t).append (tells_tails ascending c tails)

theorem tells_literal (ascending : Lexer.Ascending ts) (c : Context) (self : Text) :
    ∀ l, Tells ts [.literal l] (literal c self l)
  | .array _ es => .node ascending (tells_exprs ascending c es)
  | .tuple _ es => .node ascending (tells_elements ascending c [] es)
  | .function span params b =>
    .early ascending (tells_functionBody ascending _ b) (duplicateParams_own span params [])
  | .lambda span params result =>
    .early ascending (tells_expr ascending _ [] result) (duplicateParams_own span params [])
  | .missing | .integer _ _ | .real _ _ | .boolean _ _ | .string _ _ | .empty _ => .nil

theorem tells_elements (ascending : Lexer.Ascending ts) (c : Context) (seen : List Text) :
    ∀ es, Tells ts (es.map .element) (elements c seen es)
  | [] => .nil
  | .mk span name value :: es =>
    .append (.late (x := .element (.mk span name value)) ascending (tells_expr ascending c [] value) rfl)
      (tells_elements ascending c (name :: seen) es)

theorem tells_statement (ascending : Lexer.Ascending ts) (c : Context) :
    ∀ s, Tells ts [.statement s] (statement c s)
  | .declare span name initial =>
    .late (x := .statement (.declare span name initial)) ascending (tells_expr ascending c name initial) rfl
  | .assign _ target _ value =>
    .node ascending ((tells_primary ascending c [] target).append (tells_expr ascending c [] value))
  | .branch _ condition yes no =>
    .node ascending (((tells_expr ascending c [] condition).append (tells_body ascending c yes)).append
      (tells_body ascending c no))
  | .forLoop _ _ low high b =>
    .node ascending (((tells_expr ascending c [] low).append (tells_expr ascending c [] high)).append
      (tells_body ascending _ b))
  | .whileLoop _ condition b =>
    .node ascending ((tells_expr ascending c [] condition).append (tells_body ascending _ b))
  | .print _ arguments => .node ascending (tells_exprs ascending c arguments)
  | .ret span value =>
    .report (x := .statement (.ret span value)) ascending (tells_expr ascending c [] value) rfl
  | .brk span => .alone (x := .statement (.brk span)) ascending rfl rfl
  | .cont span => .alone (x := .statement (.cont span)) ascending rfl rfl
  | .block .missing => .nil
  | .block (.mk _ ss _) => .node ascending (tells_statements ascending (c.enter []) ss)

theorem tells_statements (ascending : Lexer.Ascending ts) (c : Context) :
    ∀ ss, Tells ts (ss.map .statement) (statements c ss)
  | [] => .nil
  | s :: ss => (tells_statement ascending c s).append (tells_statements ascending (c.after s) ss)

theorem tells_body (ascending : Lexer.Ascending ts) (c : Context) :
    ∀ b, Tells ts (Subtree.ofBody b) (body c b)
  | .missing => .nil
  | .mk _ ss _ => .node ascending (tells_statements ascending (c.enter []) ss)

theorem tells_functionBody (ascending : Lexer.Ascending ts) (c : Context) :
    ∀ b, Tells ts (Subtree.ofBody b) (functionBody c b)
  | .missing => .nil
  | .mk _ ss _ => .node ascending (tells_statements ascending c ss)

end

/-- Nested nodes that cover tokens behind one another stand in a row within a span around them. -/
theorem lined_row (ascending : Lexer.Ascending ts) {i j : Nat} {xs : List Subtree} {span : Span}
    (covers : span.Covers ts i j) (row : Parser.Row ts i (j + 1) xs) : Lined span.start span.stop xs := by
  refine ⟨proper_of_covers ascending covers, fun x member => ?_, row.pairwise ascending⟩
  obtain ⟨-, a, b, start, stop, covers'⟩ := row.covers_mem member
  exact ⟨covers.start_le ascending covers' start, proper_of_covers ascending covers',
    covers.stop_le ascending covers' (Nat.le_of_lt_succ stop)⟩

end Walk

/-- The findings about a parsed program come by their moments: a name declared again and a repeated
key are reported where their nodes end, everything else where its node starts. A finding that starts
before an earlier one is one of these two and spans the earlier one; without them the findings are in
the order of their starts. -/
theorem findings_come_by_moment {source : Text} {p : Program} (parsed : Parser.parse source = .ok p)
    (globals : List Text) :
    (program globals p).Pairwise Finding.Precedes ∧
      ((∀ f ∈ program globals p, f.problem.late = false) →
        (program globals p).Pairwise fun f g => f.span.start ≤ g.span.start) := by
  obtain ⟨ts, known, accepted⟩ := Parser.parse_eq_ok.mp parsed
  obtain ⟨ss, d, parses, -, rfl⟩ := Parser.parseTokens_eq_ok.mp accepted
  have ascending := Lexer.read_ascending known
  obtain ⟨j, there, row⟩ := parses.laid ascending 0 (.ofTokens ts)
  have row : Parser.Row ts.toList 0 (j - 1 + 1) (ss.map .statement) := row.mono le_rfl (by omega)
  have lined := lined_row ascending there.covers_read row
  have ordered := tells_statements ascending ⟨globals, globals ++ declaredNames ss, [[]], false, false⟩ ss
    (fun x member => (row.covers_mem member).1) _ _ lined
  refine ⟨ordered.pairwise, fun none => ordered.pairwise.imp_of_mem fun _ member precedes => ?_⟩
  obtain start | ⟨late, -⟩ := precedes.start
  · exact start
  · rw [none _ member] at late
    cases late

namespace Example

/-- A name is declared again with a value that mentions an unknown name. -/
def redeclaring : Text := utf8 "var a := 1; var a := z"

def stray : Text := utf8 "break; print z"

/-- What the checks find in a source, if it is one. -/
def found? (source : Text) : Option (List Finding) :=
  match Parser.parse source with
  | .ok p => some (program [] p)
  | .error _ => none

theorem parse_of_found? {source : Text} {fs : List Finding} (found : found? source = some fs) :
    ∃ p, Parser.parse source = .ok p ∧ program [] p = fs := by
  unfold found? at found
  cases parsed : Parser.parse source with
  | ok p =>
    rw [parsed] at found
    exact ⟨p, rfl, Option.some.inj found⟩
  | error e =>
    rw [parsed] at found
    cases found

/-- Findings about the second declaration, which starts at the 17th column, and about its value. -/
def swapped : List Finding :=
  [⟨.undefinedName [122], ⟨1, 22⟩, ⟨1, 23⟩⟩, ⟨.redeclared [97], ⟨1, 17⟩, ⟨1, 23⟩⟩]

theorem found_redeclaring : found? redeclaring = some swapped := by decide +kernel

theorem found_stray : found? stray =
    some [⟨.breakOutsideLoop, ⟨1, 1⟩, ⟨1, 6⟩⟩, ⟨.undefinedName [122], ⟨1, 14⟩, ⟨1, 15⟩⟩] := by
  decide +kernel

end Example

open CellScript.Check.Example in
/-- What is found about the value of a declaration comes before a finding about the declaration, which
starts earlier. -/
theorem redeclared_behind_value :
    ∃ p, Parser.parse redeclaring = .ok p ∧ program [] p = swapped ∧
      ¬(program [] p).Pairwise fun f g => f.span.start ≤ g.span.start := by
  obtain ⟨p, parsed, found⟩ := parse_of_found? found_redeclaring
  refine ⟨p, parsed, found, ?_⟩
  rw [found]
  decide

open CellScript.Check.Example in
/-- Findings of which one comes late, and findings of which none does. -/
theorem findings_come_by_moment_stray :
    (∃ p, Parser.parse redeclaring = .ok p ∧ (program [] p).Pairwise Finding.Precedes) ∧
      ∃ p, Parser.parse stray = .ok p ∧ (program [] p).length = 2 ∧
        (program [] p).Pairwise fun f g => f.span.start ≤ g.span.start := by
  constructor
  · obtain ⟨p, parsed, -⟩ := parse_of_found? found_redeclaring
    exact ⟨p, parsed, (findings_come_by_moment parsed []).1⟩
  · obtain ⟨p, parsed, found⟩ := parse_of_found? found_stray
    refine ⟨p, parsed, by rw [found]; rfl, (findings_come_by_moment parsed []).2 ?_⟩
    rw [found]
    decide

end CellScript.Check
