import CellScript.Proofs.Arrays
import CellScript.Proofs.Plan.Lasting
import CellScript.Proofs.Plan.Outputs
import CellScript.Proofs.Strings.Running

/-! Strings keep escape sequences as written, and printing expands them. No string of a run that reads none
ends inside a sequence, so it makes no difference whether strings are joined before they are printed. -/
namespace CellScript

open Run

/-! ### Runs without string input -/

/-- The strings in cells have their backslashes in pairs. -/
def Heap.Paired (h : Heap) : Prop := ∀ c s, h.get c = .string s → s.Paired

theorem Heap.All.paired {h : Heap} (all : h.All Value.Sealed) : h.Paired := by
  intro c s held
  have value : (h.get c).Sealed := all.get .usual c
  rwa [held] at value

/-- A parsed program is sealed, unless it reads a string somewhere. -/
theorem Parser.sealed_of_parse {source : Text} {p : Program} (parsed : parse source = .ok p)
    (unread : ∀ span, ¬(Subtree.primary (.read span (.known .string))).Under (.program p)) :
    Sealed (p.body.statements.map .statement) := by
  intro x member y under
  refine ⟨strings_paired parsed x member y under, ?_⟩
  rintro span rfl
  apply unread span
  obtain ⟨whole, body⟩ := p
  cases body with
  | missing => exact absurd member List.not_mem_nil
  | mk inner ss tokens =>
    have inside : (Subtree.primary (.read span (.known .string))).Under (.body (.mk inner ss tokens)) :=
      .step member under
    exact .step List.mem_cons_self inside

/-- Before each deed of a sealed program and after all of them, what the cells hold is sealed. -/
theorem Plan.program_sealed {p : Program} (sealed : Sealed (p.body.statements.map .statement))
    (cfg : Settings) (fuel : Nat) {m : Machine} (all : m.heap.All Value.Sealed) :
    Deed.Throughout (Heap.All Value.Sealed) ((Plan.program cfg fuel p).deeds m)
      (Eval.program cfg fuel p m).2 := by
  obtain ⟨passed, ended⟩ := (Plan.sealing cfg fuel).statements sealed m all
  refine ⟨passed, ?_⟩
  have heap := ended.heap
  change (reached ((Plan.program cfg fuel p).run m)).heap.All Value.Sealed at heap
  rw [Plan.run_program] at heap
  rw [Eval.program_eq_conclude]
  generalize p.body.statements.forM (Eval.statement cfg fuel) m = r at heap ⊢
  match r with
  | .ok _ m' | .error (.ret _) m' | .error (.fault _) m' | .error (.brk _) m' | .error (.cont _) m'
  | .error .exhausted m' => exact heap

/-! ### Printing -/

def Eval.value (cfg : Settings) (n : Nat) (x : Operand) : Run Value := do contents (← operand cfg n x)

namespace Plan

def value (cfg : Settings) (n : Nat) (x : Operand) : Plan Value := do .act (.contents (← operand cfg n x))

theorem run_value (cfg : Settings) (n : Nat) (x : Operand) : (value cfg n x).run = Eval.value cfg n x := by
  change (operand cfg n x).run >>= contents = Eval.operand cfg n x >>= contents
  rw [(performed cfg n).operand]

end Plan

namespace Eval

variable {cfg : Settings} {n : Nat} {x y : Operand} {m m₁ m₂ : Machine} {s t : Text}

/-- The sum of two strings is in a fresh cell when it is printed. -/
theorem statement_print_sum (first : value cfg n x m = .ok (.string s) m₁)
    (second : value cfg n y m₁ = .ok (.string t) m₂) (span e : Span) :
    statement cfg (n + 2) (.print span [.mk e [x, y] [.known .add]]) m =
      print span (.string (s ++ t)) { m₂ with heap := (m₂.heap.newCell (.string (s ++ t))).2 } := by
  have evaluated : values cfg n [x, y] m = .ok [.string s, .string t] m₂ := by
    unfold values
    rw [List.mapM_cons]
    change (value cfg n x >>= _) m = _
    rw [run_bind_of_ok first, List.mapM_cons]
    change ((value cfg n y >>= _) >>= _) m₁ = _
    rw [bind_assoc, run_bind_of_ok second]
    rfl
  have sum : expr cfg (n + 1) (.mk e [x, y] [.known .add]) m = .ok ⟨m₂.heap.cells.size⟩
      { m₂ with heap := (m₂.heap.newCell (.string (s ++ t))).2 } := by
    rw [expr_eq_reduce rfl evaluated]
    rfl
  have held : (m₂.heap.newCell (.string (s ++ t))).2.get ⟨m₂.heap.cells.size⟩ = .string (s ++ t) :=
    Heap.get_newCell_self _ _
  rw [statement]
  change ((do print span (← contents (← expr cfg (n + 1) (.mk e [x, y] [.known .add])))) >>=
    fun _ => pure ()) m = _
  rw [bind_pure_unit, run_bind_of_ok sum]
  change print span ((m₂.heap.newCell (.string (s ++ t))).2.get ⟨m₂.heap.cells.size⟩) _ = _
  rw [held]

theorem statement_print_pair (first : value cfg n x m = .ok (.string s) m₁) (y : Operand)
    (span e e' : Span) : statement cfg (n + 2) (.print span [.mk e [x] [], .mk e' [y] []]) m = (do
      print span (.string s)
      print span (← value cfg n y) : Run Unit) m₁ := by
  have denoted (e : Span) (x : Operand) : (do
      print span (← contents (← expr cfg (n + 1) (.mk e [x] []))) : Run Unit) =
        value cfg n x >>= print span := by
    rw [value, bind_assoc]
    rfl
  rw [statement]
  change ((do print span (← contents (← expr cfg (n + 1) (.mk e [x] [])))) >>= fun _ =>
    (do print span (← contents (← expr cfg (n + 1) (.mk e' [y] [])))) >>= fun _ => pure ()) m = _
  rw [bind_pure_unit, denoted, denoted, bind_assoc, run_bind_of_ok first]

end Eval

/-- The end of a step that started with an output `o`. The output carries the text `w` behind `u`, and if `o`
takes everything, the step came to its end. -/
structure Output.Delivers (o : Output) (u w : Text) (r : EStateM.Result Stop Machine Unit) : Prop where
  carries : (reached r).output.Carries u w
  complete : o.Free → ∃ m, r = .ok () m ∧ m.output.failed = false

/-- Where something was refused, the output did not take everything. -/
theorem Output.Delivers.refused {o : Output} {u w : Text} {stop : Stop} {m : Machine}
    (refused : m.output.failed = true) (carries : m.output.Carries u w) (free : o.Free → m.output.Free) :
    o.Delivers u w (.error stop m) where
  carries := carries
  complete before := by
    rw [(free before).failed] at refused
    cases refused

namespace Eval

variable {cfg : Settings} {n : Nat} {y : Operand} {m m' : Machine} {t u w : Text}

/-- Printing a string writes what it stands for, and fails if that is refused. -/
theorem print_ends (span : Span) (s : Text) (m : Machine) :
    let m' := { m with output := m.output.write s.expandEscapes }
    (m'.output.failed = false ∧ print span (.string s) m = .ok () m') ∨
      m'.output.failed = true ∧ ∃ stop, print span (.string s) m = .error stop m' := by
  intro m'
  have ends : print span (.string s) m =
      if m'.output.failed then .error (.fault ⟨.writeFailed, span, []⟩) m' else .ok () m' := rfl
  cases failed : m'.output.failed with
  | false =>
    rw [failed] at ends
    exact .inl ⟨rfl, ends⟩
  | true =>
    rw [failed] at ends
    exact .inr ⟨rfl, _, ends⟩

theorem print_delivers (carries : m.output.Carries u w) (span : Span) (s : Text) :
    m.output.Delivers u (w ++ s.expandEscapes) (print span (.string s) m) := by
  have written := carries.write s.expandEscapes
  rcases print_ends span s m with ⟨usable, printed⟩ | ⟨refused, stop, printed⟩
  · rw [printed]
    exact ⟨written, fun _ => ⟨_, rfl, usable⟩⟩
  · rw [printed]
    exact .refused refused written fun free => (free.write _).1

/-- A string is printed, and then the value of an operand that prints nothing itself. -/
theorem print_value_delivers (ended : value cfg n y m = .ok (.string t) m')
    (quiet : ∀ o, (Plan.value cfg n y).printed { m with output := o } = [])
    (carries : m.output.Carries u w) (span : Span) (s : Text) :
    m.output.Delivers u (w ++ s.expandEscapes ++ t.expandEscapes) ((do
      print span (.string s)
      print span (← value cfg n y) : Run Unit) m) := by
  have written := carries.write s.expandEscapes
  have still (free : m.output.Free) := (free.write s.expandEscapes).1
  rcases print_ends span s m with ⟨usable, printed⟩ | ⟨refused, stop, printed⟩
  · rw [run_bind_of_ok printed]
    -- the operand is evaluated with another output now
    rw [← Plan.run_value] at ended ⊢
    have later := (Plan.value cfg n y).carries
      (m := { m with output := m.output.write s.expandEscapes }) written
    have free := (Plan.value cfg n y).free (m := { m with output := m.output.write s.expandEscapes })
    rw [quiet, List.append_nil] at later
    have usable₁ := Output.usable_of_write usable
    rcases Plan.run_elsewhere ended usable₁ usable with ⟨p, other⟩ | ⟨e, k, other, refused⟩
    · rw [other] at later free
      rw [run_bind_of_ok other]
      obtain ⟨whole, complete⟩ := print_delivers later span t
      exact ⟨whole, fun before => complete (free (still before))⟩
    · rw [other] at later free
      rw [run_bind_of_error other]
      exact .refused refused (later.more refused _) fun before => free (still before)
  · rw [run_bind_of_error printed]
    exact .refused refused (written.more refused _) still

end Eval

/-- Two ends, of steps that started with the same output, after which it carries the same text: of all that
was written, each destination has a beginning, and the whole text unless something was refused. Where
nothing can be refused, both steps come to their end and show the same. -/
structure Output.WritesAlike (o : Output) (r r' : EStateM.Result Stop Machine Unit) : Prop where
  carries : ∃ t, (reached r).output.Carries o.sink.text t ∧ (reached r').output.Carries o.sink.text t
  free : o.Free → ∃ m m', r = .ok () m ∧ r' = .ok () m' ∧ m.output.shown.text = m'.output.shown.text

/-- Where two operands give strings, of which the first one ends no sequence too early and the second one is
evaluated without printing, their sum is printed as they are one after the other. -/
theorem Eval.print_alike {cfg : Settings} {n : Nat} {x y : Operand} {m m₁ m₂ : Machine} {s t : Text}
    (first : value cfg n x m = .ok (.string s) m₁) (second : value cfg n y m₁ = .ok (.string t) m₂)
    (paired : s.Paired) (quiet : ∀ o, (Plan.value cfg n y).printed { m₁ with output := o } = [])
    (span e e' e'' : Span) :
    m.output.WritesAlike (statement cfg (n + 2) (.print span [.mk e [x, y] [.known .add]]) m)
      (statement cfg (n + 2) (.print span [.mk e' [x] [], .mk e'' [y] []]) m) := by
  have whole := (Text.paired_iff_expandEscapes_append s).mp paired t
  have run (x : Operand) := Plan.run_value cfg n x
  have value₁ := (congrFun (run x) m).trans first
  have value₂ := (congrFun (run y) m₁).trans second
  have carries₁ := Plan.carries_of_ok value₁ m.output.carries_self
  have carries₂ := Plan.carries_of_ok value₂ carries₁
  have silent : (Plan.value cfg n y).printed m₁ = [] := quiet m₁.output
  rw [silent, List.append_nil] at carries₂
  have joined := print_delivers
    (m := { m₂ with heap := (m₂.heap.newCell (.string (s ++ t))).2 }) carries₂ span (s ++ t)
  have apart := print_value_delivers second quiet carries₁ span s
  rw [whole, ← List.append_assoc, ← statement_print_sum first second span e] at joined
  rw [← statement_print_pair first y span e' e''] at apart
  obtain ⟨joined, complete⟩ := joined
  obtain ⟨apart, complete'⟩ := apart
  refine ⟨⟨_, joined, apart⟩, fun free => ?_⟩
  have free₁ := Plan.free_of_ok value₁ free
  have free₂ := Plan.free_of_ok value₂ free₁
  obtain ⟨a, ended, usable⟩ := complete free₂
  obtain ⟨b, ended', usable'⟩ := complete' free₁
  rw [ended] at joined
  rw [ended'] at apart
  exact ⟨a, b, ended, ended', (joined.shown usable).trans (apart.shown usable').symm⟩

/-- String tokens have their backslashes in pairs, sums of such strings do, and just such a string is expanded
on its own, whatever it is joined to. So while a parsed program runs that reads no string, started on a fresh
machine, the strings in cells are of this kind, before each deed and in the end; and two of them, the second
one found without printing anything, are printed as their sum just as they are one after the other. -/
theorem joined_strings_expand_apart :
    (∀ source ts, Lexer.read source = .ok ts → ∀ t ∈ ts.tokens, t.kind = .string → t.value.Paired) ∧
    (∀ (s t : Text) (h : Heap),
      Operators.binary .add (.string s) (.string t) h = .ok (.string (s ++ t), h) ∧
        (s.Paired → t.Paired → (s ++ t).Paired)) ∧
    (∀ s : Text, s.Paired ↔ ∀ t, Text.expandEscapes (s ++ t) = s.expandEscapes ++ t.expandEscapes) ∧
    (∀ source p, Parser.parse source = .ok p →
      (∀ span, ¬(Subtree.primary (.read span (.known .string))).Under (.program p)) →
      ∀ cfg fuel input output, let start := { Machine.initial with input := input, output := output }
        Deed.Throughout Heap.Paired ((Plan.program cfg fuel p).deeds start)
          (Eval.program cfg fuel p start).2) ∧
    ∀ cfg n x y m m₁ m₂ s t, Eval.value cfg n x m = .ok (.string s) m₁ →
      Eval.value cfg n y m₁ = .ok (.string t) m₂ → s.Paired →
      (∀ o, (Plan.value cfg n y).printed { m₁ with output := o } = []) →
      ∀ span e e' e'',
        m.output.WritesAlike (Eval.statement cfg (n + 2) (.print span [.mk e [x, y] [.known .add]]) m)
          (Eval.statement cfg (n + 2) (.print span [.mk e' [x] [], .mk e'' [y] []]) m) := by
  refine ⟨fun source ts known => Lexer.read_paired known, fun s t h => ⟨rfl, .append⟩,
    Text.paired_iff_expandEscapes_append, ?_, ?_⟩
  · intro source p parsed unread cfg fuel input output start
    have fresh : start.heap.All Value.Sealed := fun v member => absurd member (Array.not_mem_empty v)
    obtain ⟨passed, ended⟩ := Plan.program_sealed (Parser.sealed_of_parse parsed unread) cfg fuel fresh
    exact ⟨fun d member => (passed d member).paired, ended.paired⟩
  · intro cfg n x y m m₁ m₂ s t first second paired quiet span e e' e''
    exact Eval.print_alike first second paired quiet span e e' e''

namespace Example

def quotation (start stop : Nat) (t : Text) : Operand :=
  let span : Span := ⟨⟨1, start⟩, ⟨1, stop⟩⟩
  .mk span none (.literal span (.string span t)) none

/-- Prints the sum of two strings, a pair of backslashes and a letter. -/
def backslashes : Text := utf8 "print \"\\\\\" + \"n\""

def backslashTree : Program :=
  let span : Span := ⟨⟨1, 1⟩, ⟨1, 17⟩⟩
  ⟨span, .mk span [.print span [.mk ⟨⟨1, 7⟩, ⟨1, 17⟩⟩
    [quotation 7 11 [92, 92], quotation 14 17 [110]] [.known .add]]] false⟩

theorem backslashes_parsed : Parser.parse backslashes = .ok backslashTree := by rfl

theorem backslashes_unread (span : Span) :
    ¬(Subtree.primary (.read span (.known .string))).Under (.program backslashTree) := by
  let Other (x : Subtree) := x ≠ .primary (.read span (.known .string))
  have alone {x y : Subtree} (parts : x.parts = [y]) (other : Other x) (below : y.Every Other) :
      x.Every Other := .of_parts other (parts ▸ List.forall_mem_singleton.mpr below)
  have literal (l : Literal) (none : (Subtree.literal l).parts = []) : (Subtree.literal l).Every Other :=
    .of_parts nofun (none ▸ List.forall_mem_nil _)
  have quoted (start stop : Nat) (t : Text) : (Subtree.operand (quotation start stop t)).Every Other :=
    alone rfl nofun (alone rfl nofun (literal _ rfl))
  have whole : (Subtree.program backslashTree).Every Other := by
    refine alone rfl nofun (alone rfl nofun (alone rfl nofun (.of_parts nofun ?_)))
    exact List.forall_mem_cons.mpr ⟨quoted 7 11 _, List.forall_mem_singleton.mpr (quoted 14 17 _)⟩
  exact fun under => whole _ under rfl

end Example

open Example in
/-- A pair of backslashes and a letter, which would be a sequence with the second one of them. -/
theorem joined_strings_expand_apart_backslashes :
    (∃ ts, Lexer.read backslashes = .ok ts ∧ ∀ t ∈ ts.tokens, t.kind = .string → t.value.Paired) ∧
    Text.expandEscapes ([92, 92] ++ [110]) = [92] ++ [110] ∧
    (Parser.parse backslashes = .ok backslashTree ∧ ∀ cfg fuel,
      Deed.Throughout Heap.Paired ((Plan.program cfg fuel backslashTree).deeds .initial)
        (Eval.program cfg fuel backslashTree .initial).2) ∧
    Machine.initial.output.WritesAlike
      (Eval.statement ⟨.right, 8⟩ 5 (.print .zero
        [.mk .zero [quotation 7 11 [92, 92], quotation 14 17 [110]] [.known .add]]) .initial)
      (Eval.statement ⟨.right, 8⟩ 5 (.print .zero
        [.mk .zero [quotation 7 11 [92, 92]] [], .mk .zero [quotation 14 17 [110]] []]) .initial) := by
  obtain ⟨tokens, -, expanded, run, printed⟩ := joined_strings_expand_apart
  obtain ⟨ts, known, -⟩ := Parser.parse_eq_ok.mp backslashes_parsed
  refine ⟨⟨ts, known, tokens _ ts known⟩, ?_, ⟨backslashes_parsed, fun cfg fuel => ?_⟩, ?_⟩
  · exact (expanded [92, 92]).mp (by decide) [110]
  · exact run _ _ backslashes_parsed backslashes_unread cfg fuel Machine.initial.input Machine.initial.output
  · exact printed ⟨.right, 8⟩ 3 _ _ .initial _ _ [92, 92] [110] rfl rfl (by decide) (fun _ => rfl) ..

end CellScript
