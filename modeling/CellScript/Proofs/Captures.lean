import CellScript.Proofs.Cells
import CellScript.Proofs.Discipline
import CellScript.Proofs.Plan.Heaps
import CellScript.Proofs.Plan.Laws

/-! Functions keep what they captured. Every function that a cell holds was made by an act, with the
cells that names denoted there; nothing changes it afterwards, and a call puts its bindings over those of
all callers. -/
namespace CellScript

open Run

/-! ### Bindings and scopes in which no name is bound twice -/

namespace Bindings

variable {b top : Bindings}

/-- No name is bound twice. -/
def Distinct (b : Bindings) : Prop := (b.map (·.1)).Nodup

theorem mem_names_set {name other : Text} {c : CellRef} :
    other ∈ (b.set name c).map (·.1) ↔ other = name ∨ other ∈ b.map (·.1) := by
  induction b with
  | nil => simp [set]
  | cons e rest ih =>
    unfold set
    split
    next same =>
      rw [beq_iff_eq] at same
      simp [same]
    next =>
      rw [List.map_cons, List.mem_cons, ih, List.map_cons, List.mem_cons]
      exact or_left_comm

theorem Distinct.set (distinct : b.Distinct) (name : Text) (c : CellRef) :
    (b.set name c).Distinct := by
  induction b with
  | nil => exact List.nodup_cons.mpr ⟨List.not_mem_nil, List.nodup_nil⟩
  | cons e rest ih =>
    obtain ⟨apart, tail⟩ := List.nodup_cons.mp distinct
    unfold Bindings.set
    split
    next same =>
      rw [beq_iff_eq] at same
      exact List.nodup_cons.mpr ⟨same ▸ apart, tail⟩
    next other =>
      rw [beq_iff_eq] at other
      refine List.nodup_cons.mpr ⟨fun member => ?_, ih tail⟩
      rcases mem_names_set.mp member with same | member
      · exact other same
      · exact apart member

theorem Distinct.override (distinct : b.Distinct) (top : Bindings) : (b.override top).Distinct := by
  induction top generalizing b with
  | nil => exact distinct
  | cons e top ih => exact ih (distinct.set e.1 e.2)

theorem get?_eq_none {name : Text} (absent : name ∉ b.map (·.1)) : b.get? name = none := by
  induction b with
  | nil => rfl
  | cons e rest ih =>
    rw [List.map_cons, List.mem_cons, not_or] at absent
    rw [get?_cons, if_neg absent.1]
    exact ih absent.2

/-- Names that are not bound on top denote what they denoted below. -/
theorem get?_override_of_not_mem {name : Text} (absent : name ∉ top.map (·.1)) :
    (b.override top).get? name = b.get? name := by
  induction top generalizing b with
  | nil => rfl
  | cons e top ih =>
    rw [List.map_cons, List.mem_cons, not_or] at absent
    change ((b.set e.1 e.2).override top).get? name = _
    rw [ih absent.2, get?_set, if_neg absent.1]

theorem get?_override (distinct : top.Distinct) (name : Text) :
    (b.override top).get? name = (top.get? name).or (b.get? name) := by
  induction top generalizing b with
  | nil => rfl
  | cons e top ih =>
    obtain ⟨apart, tail⟩ := List.nodup_cons.mp distinct
    change ((b.set e.1 e.2).override top).get? name = _
    rw [ih tail, get?_set, get?_cons]
    by_cases same : name = e.1
    · rw [get?_eq_none (same ▸ apart), if_pos same, if_pos same]
      rfl
    · rw [if_neg same, if_neg same]

end Bindings

namespace Scopes

variable {s : Scopes}

/-- No frame binds a name twice. -/
structure Distinct (s : Scopes) : Prop where
  globals : s.globals.Distinct
  inner : ∀ f ∈ s.inner, f.bindings.Distinct

namespace Distinct

theorem bind (distinct : s.Distinct) (name : Text) (c : CellRef) : (s.bind name c).Distinct := by
  obtain ⟨globals, inner⟩ := s
  cases inner with
  | nil => exact ⟨distinct.globals.set name c, nofun⟩
  | cons f fs =>
    constructor
    case globals => exact distinct.globals
    case inner =>
      intro g member
      rcases List.mem_cons.mp member with rfl | member
      · exact (distinct.inner f List.mem_cons_self).set name c
      · exact distinct.inner g (List.mem_cons_of_mem _ member)

theorem openWith (distinct : s.Distinct) (owner : Option Owner) {bindings : Bindings}
    (frame : bindings.Distinct) : (s.openWith owner bindings).Distinct := by
  constructor
  case globals => exact distinct.globals
  case inner =>
    intro f member
    rcases List.mem_cons.mp member with rfl | member
    · exact frame
    · exact distinct.inner f member

theorem mem_of_below {owner : Option Owner} {fs rest : List Frame} (found : below? owner fs = some rest)
    {f : Frame} (member : f ∈ rest) : f ∈ fs := by
  induction fs with
  | nil => cases found
  | cons g fs ih =>
    unfold below? at found
    split at found
    · cases found
      exact List.mem_cons_of_mem _ member
    · exact List.mem_cons_of_mem _ (ih found)

theorem close (distinct : s.Distinct) {owner : Option Owner} {t : Scopes}
    (closed : s.close owner = .ok t) : t.Distinct := by
  unfold Scopes.close at closed
  split at closed
  next rest found =>
    cases closed
    exact ⟨distinct.globals, fun f member => distinct.inner f (mem_of_below found member)⟩
  next => cases closed

theorem reset (distinct : s.Distinct) : s.reset.Distinct := ⟨distinct.globals, nofun⟩

theorem snapshot (distinct : s.Distinct) : s.snapshot.Distinct := by
  obtain ⟨globals, inner⟩ := s
  induction inner with
  | nil => exact distinct.globals
  | cons f fs ih =>
    have outer : ∀ g ∈ fs, g.bindings.Distinct := fun g member =>
      distinct.inner g (List.mem_cons_of_mem _ member)
    exact (ih ⟨distinct.globals, outer⟩).override _

/-- A snapshot binds each name to the cell that the name denotes. -/
theorem get?_snapshot (distinct : s.Distinct) (name : Text) :
    s.snapshot.get? name = s.lookup? name := by
  obtain ⟨globals, inner⟩ := s
  induction inner with
  | nil => rfl
  | cons f fs ih =>
    have below : Scopes.Distinct ⟨globals, fs⟩ :=
      ⟨distinct.globals, fun g member => distinct.inner g (List.mem_cons_of_mem _ member)⟩
    change (Bindings.override (Scopes.snapshot ⟨globals, fs⟩) f.bindings).get? name = _
    rw [Bindings.get?_override (distinct.inner f List.mem_cons_self), ih below]
    unfold lookup?
    rw [List.findSome?_cons]
    cases f.bindings.get? name <;> rfl

end Distinct

theorem lookup?_bind_self (s : Scopes) (name : Text) (c : CellRef) :
    (s.bind name c).lookup? name = some c := by
  obtain ⟨globals, inner⟩ := s
  cases inner with
  | nil =>
    change (globals.set name c).get? name = some c
    rw [Bindings.get?_set, if_pos rfl]
  | cons f fs =>
    have here : (f.bindings.set name c).get? name = some c := by
      rw [Bindings.get?_set, if_pos rfl]
    simp only [lookup?, bind, List.findSome?_cons, here, Option.some_or]

/-- What the innermost frame binds is what a name denotes. -/
theorem lookup?_openWith_of_get? {owner : Option Owner} {bindings : Bindings} {name : Text}
    {c : CellRef} (bound : bindings.get? name = some c) :
    (s.openWith owner bindings).lookup? name = some c := by
  simp only [lookup?, openWith, List.findSome?_cons, bound, Option.some_or]

end Scopes

/-! ### Where functions come from -/

/-- A deed made a function; the last argument tells what names denote for it. That is what they
denoted where the function was written, except that the name which the function was declared for
denotes the cell that the declaration bound it to. -/
inductive Deed.Makes : Deed → Closure → (Text → Option CellRef) → Prop where
  | literal {span : Span} {params : List Text} {code : Code} {m m' : Machine} {c : CellRef}
      {f : Closure} (ran : (Act.function span params code).run m = .ok c m')
      (held : m'.heap.get c = .func f) :
    Makes (.act (.function span params code) m) f m.scopes.lookup?
  | declared {name : Text} {span : Span} {params : List Text} {code : Code} {m m' : Machine}
      {c : CellRef} {f : Closure}
      (ran : (Act.declareFunction name span params code).run m = .ok () m')
      (bound : m'.scopes.lookup? name = some c) (held : m'.heap.get c = .func f) :
    Makes (.act (.declareFunction name span params code) m) f
      fun other => if other = name then some c else m.scopes.lookup? other

/-- A function that was made before, with each name captured once. -/
structure Deed.Originates (past : List Deed) (f : Closure) : Prop where
  captured : f.captured.Distinct
  made : ∃ d ∈ past, ∃ names, d.Makes f names

theorem Deed.Originates.mono {past more : List Deed} {f : Closure}
    (originates : Deed.Originates past f) (earlier : past <+: more) : Deed.Originates more f := by
  obtain ⟨d, member, names, makes⟩ := originates.made
  exact ⟨originates.captured, d, earlier.subset member, names, makes⟩

/-- The function that an act makes is the one of its deed. -/
theorem Act.originates {α : Type} {a : Act α} {m : Machine} {f : Closure}
    (made : a.made? m = some f) (distinct : m.scopes.Distinct) (past : List Deed) :
    Deed.Originates (past ++ [.act a m]) f := by
  have member : Deed.act a m ∈ past ++ [.act a m] :=
    List.mem_append_right _ (List.mem_singleton.mpr rfl)
  cases a with
  | function span params code =>
    cases made
    refine ⟨distinct.snapshot, _, member, _, .literal (c := ⟨m.heap.cells.size⟩) rfl ?_⟩
    exact Heap.get_newCell_self m.heap _
  | declareFunction name span params code =>
    cases made
    refine ⟨distinct.snapshot.set _ _, _, member, _, .declared
      (Act.run_declareFunction name span params code m) (Scopes.lookup?_bind_self _ _ _) ?_⟩
    exact Heap.get_newCell_self m.heap _
  | _ => cases made

/-- A function resolves names that are not its parameters as they were where it was made. -/
theorem Deed.Makes.captured {d : Deed} {f : Closure} {names : Text → Option CellRef}
    (makes : d.Makes f names) (distinct : d.machine.scopes.Distinct) (name : Text) :
    f.captured.get? name = names name := by
  cases makes with
  | @literal span params code m m' c f ran held =>
    cases ran
    have same := (Heap.get_newCell_self m.heap _).symm.trans held
    cases same
    exact distinct.get?_snapshot name
  | @declared g span params code m m' c f ran bound held =>
    rw [Act.run_declareFunction] at ran
    cases ran
    have cell := (Scopes.lookup?_bind_self m.scopes g ⟨m.heap.cells.size⟩).symm.trans bound
    cases cell
    have same := (Heap.get_newCell_self m.heap _).symm.trans held
    cases same
    have seen : m.scopes.snapshot.get? name = m.scopes.lookup? name := distinct.get?_snapshot name
    change (m.scopes.snapshot.set g ⟨m.heap.cells.size⟩).get? name =
      if name = g then some ⟨m.heap.cells.size⟩ else m.scopes.lookup? name
    rw [Bindings.get?_set, seen]

/-! ### What evaluation keeps -/

theorem Act.scopes_run {α : Type} (a : Act α) (m : Machine) :
    (reached (a.run m)).scopes = m.scopes ∨
      ∃ name c, (reached (a.run m)).scopes = m.scopes.bind name c := by
  induction a using Act.inward_cases with
  | inward a inward => exact .inl (inward.still m).1
  | bind name c => exact .inr ⟨name, c, rfl⟩
  | declare name span params code =>
    rw [run_declareFunction]
    exact .inr ⟨name, _, rfl⟩
  | print span v => exact .inl (Run.Still.print span v m).1

theorem Act.distinct {α : Type} (a : Act α) {m : Machine} (distinct : m.scopes.Distinct) :
    (reached (a.run m)).scopes.Distinct := by
  rcases a.scopes_run m with same | ⟨name, c, bound⟩
  · rw [same]
    exact distinct
  · rw [bound]
    exact distinct.bind name c

theorem Run.Still.takeValue (span : Span) (kind : ReadKind) : Still (takeValue span kind) := by
  refine bind (fun m => ?_) fun w => (Inward.understand span kind w).still
  unfold takeWord
  dsimp only
  split
  · exact ⟨rfl, rfl⟩
  · split <;> exact ⟨rfl, rfl⟩

/-- Nothing but the making of a function puts a function into a cell that no cell held before. -/
theorem Heap.All.lasting {P : Value → Prop} (plain : ∀ v, (∀ f, v ≠ .func f) → P v) :
    Heap.Lasting (Heap.All P) := by
  have made {h : Heap} {result : Value × Heap} (all : h.All P) (fresh : Operators.Fresh h result) :
      result.2.All P ∧ P result.1 := by
    cases fresh with
    | plain scalar =>
      refine ⟨all, plain _ ?_⟩
      rintro f rfl
      cases scalar
    | array | sum | tuple => exact ⟨all, plain _ nofun⟩
  have usual (v : Value) (code : ∀ f, v ≠ .func f) (_ : ∀ t, v ≠ .string t) : P v := plain v code
  constructor
  case made => exact fun all fresh => (made all fresh).1
  case held => exact fun all fresh => (made all fresh).1.newCell (made all fresh).2
  case written =>
    exact fun c all fresh => (made all fresh).1.set usual (made all fresh).2 c
  case assigned => exact fun c d all => all.set usual (all.get usual d) c
  case slot => exact fun a key all => all.slot usual a key

/-- If the value is a function, it was made before. -/
def Value.Originates (past : List Deed) (v : Value) : Prop :=
  ∀ f, v = .func f → Deed.Originates past f

theorem Value.Originates.plain (past : List Deed) (v : Value) (plain : ∀ f, v ≠ .func f) :
    v.Originates past :=
  fun f same => absurd same (plain f)

/-- What is so after the given deeds: no name is bound twice, now or before a deed, functions in cells
were made by a deed, and so were all functions before they were entered. -/
structure Deed.Captured (past : List Deed) (m : Machine) : Prop where
  scopes : m.scopes.Distinct
  functions : m.heap.All (Value.Originates past)
  before : ∀ d ∈ past, d.machine.scopes.Distinct
  entries : ∀ {earlier later : List Deed} {f : Closure} {m₁ : Machine},
    past = earlier ++ .entered f m₁ :: later →
    Deed.Originates earlier f ∧ ∃ (m : Machine) (arguments : List CellRef), m₁ = m.enter f arguments

namespace Deed.Captured

variable {past : List Deed} {m m' : Machine} {d : Deed}

theorem append (captured : Captured past m) (here : d.machine.scopes.Distinct)
    (entry : ∀ {f m₁}, d = .entered f m₁ →
      Deed.Originates past f ∧ ∃ (m : Machine) (arguments : List CellRef), m₁ = m.enter f arguments)
    (scopes : m'.scopes.Distinct) (functions : m'.heap.All (Value.Originates (past ++ [d]))) :
    Captured (past ++ [d]) m' where
  scopes := scopes
  functions := functions
  before := by
    intro e member
    rcases List.mem_append.mp member with member | member
    · exact captured.before e member
    · rw [List.mem_singleton.mp member]
      exact here
  entries := by
    intro earlier later f m₁ split
    rcases Deed.split_append split with ⟨rfl, same⟩ | ⟨rest, before⟩
    · exact entry same
    · exact captured.entries before

/-- Functions that were made before are so after one more deed. -/
theorem grow (captured : Captured past m) (d : Deed) :
    m.heap.All (Value.Originates (past ++ [d])) :=
  fun v member f same => (captured.functions v member f same).mono (List.prefix_append _ _)

end Deed.Captured

theorem Plan.captured_law : Plan.Law Deed.Captured where
  act {_ past m} a captured := by
    have lasting := Heap.All.lasting (Value.Originates.plain (past ++ [.act a m]))
    refine captured.append captured.scopes nofun (a.distinct captured.scopes) ?_
    refine lasting.act a (captured.grow _) fun f made => (captured.grow _).newCell ?_
    rintro _ ⟨⟩
    exact Act.originates made captured.scopes past
  unread {past m m' _ _} captured shown := by
    have same : m' = _ := reached_of_shown shown
    subst same
    exact ⟨captured.scopes, captured.functions, captured.before, captured.entries⟩
  read {past m m' span} kind captured shown := by
    have same : m' = _ := reached_of_shown shown
    subst same
    have lasting := Heap.All.lasting
      (Value.Originates.plain (past ++ [.asked span kind { m with output := m.output.beforeRead }]))
    refine captured.append captured.scopes nofun ?_ (lasting.takeValue span kind (captured.grow _))
    rw [(Run.Still.takeValue span kind _).1]
    exact captured.scopes
  enter {past earlier m m' c f arguments} fetched before held captured _ := by
    have origin : Deed.Originates past f :=
      (fetched.functions.get (fun v code _ => .plain earlier v code) c f held).mono before
    have scopes : (m.enter f arguments).scopes.Distinct :=
      captured.scopes.openWith _ (origin.captured.override _)
    refine captured.append scopes ?_ scopes (captured.grow _)
    rintro _ _ ⟨⟩
    exact ⟨origin, m, arguments, rfl⟩
  opened owner captured :=
    ⟨captured.scopes.openWith _ List.nodup_nil, captured.functions, captured.before, captured.entries⟩
  closed captured closed :=
    ⟨captured.scopes.close closed, captured.functions, captured.before, captured.entries⟩
  counted _ captured := ⟨captured.scopes, captured.functions, captured.before, captured.entries⟩
  emptied captured :=
    ⟨captured.scopes, captured.functions.newCell (.plain _ _ nofun), captured.before, captured.entries⟩

theorem Chronicle.captured {cfg : Settings} {past : List Deed} {m : Machine}
    (chronicle : Chronicle cfg past m) : Deed.Captured past m := by
  apply chronicle.keeps Plan.captured_law
  case initial =>
    have scopes : Scopes.Distinct .empty :=
      ⟨List.nodup_nil, fun f member => absurd member List.not_mem_nil⟩
    have functions : Heap.All (Value.Originates []) .empty :=
      fun v member => absurd member (Array.not_mem_empty v)
    refine ⟨scopes, functions, fun d member => absurd member List.not_mem_nil, ?_⟩
    intro earlier later f m₁ split
    exact absurd split.symm (List.append_ne_nil_of_right_ne_nil _ (List.cons_ne_nil _ _))
  case connect =>
    exact fun _ _ captured =>
      ⟨captured.scopes, captured.functions, captured.before, captured.entries⟩
  case reset =>
    exact fun captured =>
      ⟨captured.scopes.reset, captured.functions, captured.before, captured.entries⟩

/-- Whenever the code of a function starts, the function was made before, and every name that is not
one of its parameters denotes the cell that it denoted where the function was made. -/
theorem functions_keep_captured_bindings {cfg : Settings} {past earlier later : List Deed}
    {m m₁ : Machine} {f : Closure} (chronicle : Chronicle cfg past m)
    (entered : past = earlier ++ .entered f m₁ :: later) :
    (∃ d ∈ earlier, ∃ names, d.Makes f names) ∧
      ∀ d ∈ earlier, ∀ names, d.Makes f names → ∀ name ∉ f.params, ∀ c, names name = some c →
        m₁.scopes.lookup? name = some c := by
  have captured := chronicle.captured
  obtain ⟨origin, m, arguments, rfl⟩ := captured.entries entered
  constructor
  · exact origin.made
  · intro d member names makes name free c seen
    have distinct : d.machine.scopes.Distinct :=
      captured.before d (entered ▸ List.mem_append_left _ member)
    have absent : name ∉ (f.params.zip arguments).map (·.1) := by
      intro bound
      obtain ⟨pair, inside, rfl⟩ := List.mem_map.mp bound
      exact free (List.of_mem_zip inside).1
    apply Scopes.lookup?_openWith_of_get?
    rw [Bindings.get?_override_of_not_mem absent, makes.captured distinct]
    exact seen

namespace Example

/-- Declares a name, a function that reads it and the name once more, and calls the function. -/
def rebound : Program :=
  ⟨.zero, .mk .zero [
    .declare .zero [120] (lone (.literal .zero (.integer .zero 1))),
    .declare .zero [102] (lone (.literal .zero (.lambda .zero [] (lone (.ref .zero [120] []))))),
    .declare .zero [120] (lone (.literal .zero (.integer .zero 2))),
    .print .zero [lone (.ref .zero [102] [.call .zero []])]] false⟩

/-- Whether a function starts in which the name denotes its first cell, while the global frame binds it
to the last one. -/
def seesFirst : Deed → Bool
  | .entered _ m =>
    m.scopes.lookup? [120] == some ⟨0⟩ && m.scopes.globals.get? [120] == some ⟨2⟩
  | _ => false

theorem rebound_seesFirst :
    ((Plan.program ⟨.right, 8⟩ 60 rebound).deeds .initial).any seesFirst = true := by
  decide +kernel

end Example

open Example in
/-- A function that is called after a name that it reads was declared once more. -/
theorem functions_keep_captured_bindings_rebound :
    ∃ earlier f m₁ later,
      (Plan.program ⟨.right, 8⟩ 60 rebound).deeds .initial = earlier ++ .entered f m₁ :: later ∧
      m₁.scopes.lookup? [120] = some ⟨0⟩ ∧ m₁.scopes.globals.get? [120] = some ⟨2⟩ ∧
      (∃ d ∈ earlier, ∃ names, d.Makes f names) ∧
      ∀ d ∈ earlier, ∀ names, d.Makes f names → ∀ name ∉ f.params, ∀ c, names name = some c →
        m₁.scopes.lookup? name = some c := by
  obtain ⟨d, member, sees⟩ := List.any_eq_true.mp rebound_seesFirst
  obtain ⟨earlier, later, split⟩ := List.append_of_mem member
  cases d with
  | act | asked => cases sees
  | entered f m₁ =>
    simp only [seesFirst, Bool.and_eq_true, beq_iff_eq] at sees
    have start : Chronicle ⟨.right, 8⟩ [] .initial := .initial
    have chronicle := start.program 60 rebound
    exact ⟨earlier, f, m₁, later, split, sees.1, sees.2,
      functions_keep_captured_bindings chronicle split⟩

end CellScript
