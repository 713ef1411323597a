import CellScript.Proofs.Plan.Inputs
import CellScript.Proofs.Repl.Rounds

/-! The lines of an interactive session. Some are entries, and the programs of entries take others as their
input: as few as have the words that they read. The next entry starts with the line after these. -/
namespace CellScript

open Run

namespace Session

/-- The machine in which a program starts. -/
def started (s : Session) (feed : Feed) (sink : Sink) : Machine :=
  { (s.connect feed).machine with output := .toSink sink }

/-- What a program gets from its reads. -/
def received (s : Session) (feed : Feed) (sink : Sink) (p : Program) : List (Except ReadStop Text) :=
  (Plan.program s.config.settings Eval.ample p).received (s.started feed sink)

/-- The input after a program is the input after its plan. -/
theorem input_execute (s : Session) (source : Source) (sink : Sink) (p : Program) :
    (s.execute (.fresh source) sink p).2.machine.input =
      (reached ((Plan.program s.config.settings Eval.ample p).run
        (s.started (.fresh source) sink))).input := by
  rw [Plan.run_program]
  exact Eval.input_conclude _

/-- A program whose input is an editor gets the words of its lines. -/
theorem fed (s : Session) (sink : Sink) (p : Program) {e : Editor}
    (short : ∀ t, .text t ∈ e.upcoming → t.length < WordReader.maxSize) :
    WordReader.Fed e (s.received (.fresh (.editor e [])) sink p)
      (s.execute (.fresh (.editor e [])) sink p).2.machine.input := by
  rw [input_execute]
  exact Plan.fed _ rfl short

/-- A program leaves the editor at the same or a later point. -/
theorem behind (s : Session) (sink : Sink) (p : Program) (e : Editor) :
    (s.execute (.fresh (.editor e [])) sink p).2.machine.input.source.Behind e := by
  rw [input_execute]
  exact Plan.behind _ ⟨e, [], rfl, List.suffix_rfl⟩

/-- What is accepted is run. -/
theorem run_of_accepted {s : Session} {path source : Text} {p : Program}
    (program : (s.compile path source).program = some p) (accepted : (s.compile path source).failure = none)
    (feed : Feed) (sink : Sink) :
    (s.run feed sink path source).1.ran = true ∧
      (s.run feed sink path source).2 = (s.execute feed sink p).2 := by
  unfold run
  dsimp only
  rw [program, accepted]
  exact ⟨rfl, rfl⟩

/-- What is not accepted is not run; what is accepted has a program. -/
theorem program_of_ran {s : Session} {path source : Text} {feed : Feed} {sink : Sink}
    (ran : (s.run feed sink path source).1.ran = true) :
    ∃ p, (s.run feed sink path source).2 = (s.execute feed sink p).2 := by
  unfold run at ran ⊢
  dsimp only at ran ⊢
  split
  next p _ _ => exact ⟨p, rfl⟩
  next other =>
    split at ran
    next p accepted program => exact absurd program (other p accepted)
    next => cases ran

end Session

namespace Repl

variable {paint : Paint} {s t : State} {entry : Text} {e e' : Editor}

/-! ### Entries -/

theorem join_singleton (a : Text) : Text.join [10] [a] = a := by simp [Text.join]

theorem join_cons_cons (a b : Text) (lines : List Text) :
    Text.join [10] (a :: b :: lines) = Text.join [10] ((a ++ 10 :: b) :: lines) := by
  cases lines with
  | nil => simp [Text.join]
  | cons c lines => simp [Text.join]

/-- An entry is made of the lines given before and those that the editor gave, unless it was aborted. -/
inductive Entered (before : List Text) (e : Editor) : Text → Editor → Prop where
  | lines (own : List Text) {e' : Editor} (given : e.upcoming = own.map .text ++ e'.upcoming)
      (some : before ++ own ≠ []) : Entered before e (Text.join [10] (before ++ own)) e'
  | aborted (own : List Text) {e' : Editor} (given : e.upcoming = own.map .text ++ .aborted :: e'.upcoming) :
    Entered before e [] e'

theorem Entered.all {a : Text} (none : e.upcoming = e'.upcoming) : Entered [a] e a e' := by
  have entered : Entered [a] e (Text.join [10] ([a] ++ [])) e' := .lines [] none (List.cons_ne_nil _ _)
  rwa [List.append_nil, join_singleton] at entered

/-- The first line. -/
theorem Entered.first {line : Text} (e₁ : Editor) (next : e.upcoming = .text line :: e₁.upcoming)
    (entered : Entered [line] e₁ entry e') : Entered [] e entry e' := by
  cases entered with
  | lines own given some => exact .lines (line :: own) (by rw [next, given]; rfl) some
  | aborted own given => exact .aborted (line :: own) (by rw [next, given]; rfl)

/-- One more line. -/
theorem Entered.line {a line : Text} (e₁ : Editor) (next : e.upcoming = .text line :: e₁.upcoming)
    (entered : Entered [a ++ 10 :: line] e₁ entry e') : Entered [a] e entry e' := by
  cases entered with
  | lines own given some =>
    have same : Text.join [10] ([a ++ 10 :: line] ++ own) = Text.join [10] ([a] ++ line :: own) :=
      (join_cons_cons a line own).symm
    rw [same]
    exact .lines (line :: own) (by rw [next, given]; rfl) (List.cons_ne_nil _ _)
  | aborted own given => exact .aborted (line :: own) (by rw [next, given]; rfl)

theorem entered_more {steps : Nat} {soFar : Text} (some : soFar ≠ [])
    (read : readEntry steps e soFar = (.some entry, e')) : Entered [soFar] e entry e' := by
  induction steps generalizing e soFar with
  | zero => cases read
  | succ steps ih =>
    have started : soFar.isEmpty = false := List.isEmpty_eq_false_iff.mpr some
    obtain ⟨upcoming, prompts, count⟩ := e
    unfold readEntry Editor.prompt at read
    simp only [started, Bool.false_eq_true, if_false] at read
    cases upcoming with
    | nil =>
      obtain ⟨rfl, rfl⟩ : soFar = entry ∧ _ = e' := by simpa using read
      exact .all rfl
    | cons l rest =>
      cases l with
      | aborted =>
        obtain ⟨rfl, rfl⟩ : [] = entry ∧ _ = e' := by simpa using read
        exact .aborted [] rfl
      | failed => cases read
      | text line =>
        dsimp only at read
        refine .line ⟨rest, prompts ++ [morePrompt], count + 1⟩ rfl ?_
        split at read
        · exact ih (by simp) read
        · obtain ⟨rfl, rfl⟩ : soFar ++ 10 :: line = entry ∧ _ = e' := by simpa using read
          exact .all rfl

/-- An empty line is a program. -/
theorem isUnfinished_nil : isUnfinished [] = false := by decide +kernel

theorem entered {steps : Nat} (read : readEntry steps e [] = (.some entry, e')) : Entered [] e entry e' := by
  cases steps with
  | zero => cases read
  | succ steps =>
    obtain ⟨upcoming, prompts, count⟩ := e
    unfold readEntry Editor.prompt at read
    simp only [List.isEmpty_nil, if_true] at read
    cases upcoming with
    | nil => cases read
    | cons l rest =>
      cases l with
      | aborted =>
        obtain ⟨rfl, rfl⟩ : [] = entry ∧ _ = e' := by simpa using read
        exact .aborted [] rfl
      | failed => cases read
      | text line =>
        dsimp only at read
        refine .first ⟨rest, prompts ++ [mainPrompt], count + 1⟩ rfl ?_
        split at read
        next more =>
          have some : line ≠ [] := by
            rintro rfl
            rw [isUnfinished_nil, Bool.and_false] at more
            cases more
          exact entered_more some read
        next =>
          obtain ⟨rfl, rfl⟩ : line = entry ∧ _ = e' := by simpa using read
          exact .all rfl

/-- An entry takes a line at least. -/
theorem Entered.shorter (entered : Entered [] e entry e') :
    e'.upcoming <:+ e.upcoming ∧ e'.upcoming.length < e.upcoming.length := by
  cases entered with
  | lines own given some =>
    have length := List.length_pos_iff.mpr some
    refine ⟨given ▸ List.suffix_append _ _, ?_⟩
    rw [given, List.length_append, List.length_map]
    exact Nat.lt_add_of_pos_left length
  | aborted own given =>
    rw [given]
    refine ⟨(List.suffix_cons _ _).trans (List.suffix_append _ _), ?_⟩
    rw [List.length_append, List.length_cons]
    omega

/-! ### Rounds -/

/-- An entry that the editor gives and the session accepts as a program. -/
structure Accepts (s : State) (entry : Text) (editor : Editor) (p : Program) : Prop where
  read : readEntry (s.editor.upcoming.length + 1) s.editor [] = (some entry, editor)
  written : entry.trim.isEmpty = false
  plain : isCommand entry = false
  program : (s.session.compile entryPath entry).program = some p
  accepted : (s.session.compile entryPath entry).failure = none

/-- What the program of an entry gets from its reads. -/
def received (s : State) (editor : Editor) (p : Program) : List (Except ReadStop Text) :=
  s.session.received (.fresh (.editor editor [])) (.unlimited false) p

/-- The run of an entry leaves the editor where it was, or where the program left it. -/
theorem upcoming_runEntry (paint : Paint) (s : State) (entry : Text) :
    (runEntry paint s entry).editor.upcoming <:+ s.editor.upcoming := by
  unfold runEntry
  dsimp only
  split
  next e line ran source =>
    obtain ⟨p, after⟩ := Session.program_of_ran ran
    obtain ⟨e', line', same, suffix⟩ := s.session.behind (.unlimited false) p s.editor
    rw [after] at source
    cases source.symm.trans same
    exact suffix
  next => exact List.suffix_rfl

/-- Every round takes a line at least, and gives none back. -/
theorem upcoming_of_round (next : round? paint s = some t) :
    t.editor.upcoming <:+ s.editor.upcoming ∧ t.editor.upcoming.length < s.editor.upcoming.length := by
  obtain ⟨entry, editor, read, round⟩ := round_cases next
  have shorter := (entered read).shorter
  cases round with
  | blank | command => exact shorter
  | program =>
    have suffix := upcoming_runEntry paint (s.running entry editor) entry
    exact ⟨suffix.trans shorter.1, Nat.lt_of_le_of_lt suffix.length_le shorter.2⟩

theorem upcoming_of_rounds (n : Nat) {s : State} (ahead : rounds paint n s = some t) :
    t.editor.upcoming <:+ s.editor.upcoming ∧
      n + t.editor.upcoming.length ≤ s.editor.upcoming.length := by
  induction n generalizing s with
  | zero =>
    rw [Option.some.inj ahead]
    exact ⟨List.suffix_rfl, Nat.le_of_eq (Nat.zero_add _)⟩
  | succ n ih =>
    obtain ⟨next, first, ahead⟩ := Option.bind_eq_some_iff.mp ahead
    obtain ⟨suffix, less⟩ := upcoming_of_round first
    obtain ⟨suffix', le⟩ := ih ahead
    exact ⟨suffix'.trans suffix, by omega⟩

/-- Some lines have so many words, and without the last of them have fewer. -/
structure Fewest (count : Nat) (lines : List Text) : Prop where
  enough : count ≤ (lines.flatMap Text.words).length
  least : ∀ j < lines.length, ((lines.take j).flatMap Text.words).length < count

/-- The round of an entry. -/
theorem Accepts.round {p : Program} (accepts : Accepts s entry e p) :
    round? paint s = some (runEntry paint (s.running entry e) entry) := by
  unfold round?
  rw [accepts.read]
  dsimp only
  rw [accepts.written, accepts.plain]
  rfl

/-- The own lines of an entry. -/
theorem Accepts.own {p : Program} (accepts : Accepts s entry e p) :
    ∃ own : List Text, own ≠ [] ∧ entry = Text.join [10] own ∧
      s.editor.upcoming = own.map .text ++ e.upcoming := by
  cases entered accepts.read with
  | lines own given some => exact ⟨own, some, rfl, given⟩
  | aborted _ given => exact absurd accepts.written (by decide +kernel)

/-- The editor after an entry is the one that its program left. -/
theorem Accepts.editor {p : Program} {e' : Editor} {line : Text} (accepts : Accepts s entry e p)
    (left : (s.session.execute (.fresh (.editor e [])) (.unlimited false) p).2.machine.input.source =
      .editor e' line) :
    (runEntry paint (s.running entry e) entry).editor = e' := by
  obtain ⟨ran, after⟩ := Session.run_of_accepted accepts.program accepts.accepted
    (.fresh (.editor e [])) (.unlimited false)
  rw [← after] at left
  unfold runEntry State.running
  dsimp only
  rw [ran, left]

/-- The program of an entry takes the fewest of the lines after the entry that have as many words as it
reads, and gets these words in their order. The next entry starts with the line after them, and no line
that a program takes is kept in the history. -/
theorem programs_take_fewest_lines (paint : Paint) (config : Config) (lines : List EditorLine)
    (short : ∀ t, .text t ∈ lines → t.length < WordReader.maxSize) {n : Nat} {s : State}
    (visited : rounds paint n (.start config lines) = some s) {entry : Text} {editor : Editor} {p : Program}
    (accepts : Accepts s entry editor p) (found : ∀ r ∈ received s editor p, ∃ w, r = .ok w) :
    ∃ (own taken : List Text) (rest : List EditorLine) (t : State),
      (own ≠ [] ∧ entry = Text.join [10] own ∧ s.editor.upcoming = own.map .text ++ editor.upcoming) ∧
      editor.upcoming = taken.map .text ++ rest ∧
      Fewest (received s editor p).length taken ∧
      received s editor p = ((taken.flatMap Text.words).take (received s editor p).length).map .ok ∧
      round? paint s = some t ∧
      t.editor = ⟨rest, editor.prompts ++ List.replicate taken.length Source.inputPrompt,
        editor.entered + taken.length⟩ ∧
      t.history = s.history ++ [Text.replaceByte 10 32 entry] ∧
      run paint config lines = loop paint (lines.length - n) t := by
  obtain ⟨later, few⟩ := upcoming_of_rounds n visited
  obtain ⟨own, written, joined, given⟩ := accepts.own
  have short' : ∀ t, .text t ∈ editor.upcoming → t.length < WordReader.maxSize := fun t member =>
    short t (later.mem (given ▸ List.mem_append_right _ member))
  have fed : WordReader.Fed editor (received s editor p)
    (s.session.execute (.fresh (.editor editor [])) (.unlimited false) p).2.machine.input :=
    s.session.fed (.unlimited false) p short'
  generalize received s editor p = answers at found fed ⊢
  generalize after : (s.session.execute (.fresh (.editor editor [])) (.unlimited false) p).2.machine.input =
    input at fed
  cases fed with
  | ended failed _ =>
    obtain ⟨w, none⟩ := found _ failed
    cases none
  | @words taken ws left e' _ takes words fewest holds =>
    obtain ⟨line, tidy, -⟩ := holds
    have source := tidy.source
    rw [← after] at source
    have round : round? paint s = some (runEntry paint (s.running entry editor) entry) := accepts.round
    have shortest : Fewest ws.length taken := by
      refine ⟨?_, fewest⟩
      rw [words, List.length_append]
      exact Nat.le_add_right _ _
    rw [List.length_map]
    refine ⟨own, taken, e'.upcoming, _, ⟨written, joined, given⟩, takes.upcoming, shortest, ?_, round,
      ?_, rfl, ?_⟩
    · rw [words, List.take_left]
    · rw [accepts.editor source, ← takes.prompts, ← takes.entered]
    · have few : n ≤ lines.length := Nat.le_trans (Nat.le_add_right _ _) few
      rw [run_of_rounds few visited, Nat.sub_add_comm few]
      exact loop_of_round round _

namespace Example

/-- Two entries that read, each followed by more words than it takes, and one that does not. -/
def sums : List EditorLine :=
  [.text (utf8 "var a := readInt"), .text (utf8 "1 2"), .text (utf8 "print a + readInt"), .text [],
    .text (utf8 "7 8"), .text (utf8 "print a")]

/-- The next entry is accepted, and its program gets one word. -/
def gives (entry word : Text) (s : State) : Bool :=
  match readEntry (s.editor.upcoming.length + 1) s.editor [], s.session.compile entryPath entry with
  | (some given, editor), ⟨some p, _, none⟩ =>
    given == entry && match received s editor p with
      | [.ok w] => w == word
      | _ => false
  | _, _ => false

theorem accepts_of_gives {entry word : Text} {s : State} (written : entry.trim.isEmpty = false)
    (plain : isCommand entry = false) (gives : gives entry word s = true) :
    ∃ editor p, Accepts s entry editor p ∧ received s editor p = [.ok word] := by
  unfold Example.gives at gives
  split at gives
  next given editor p _ read program =>
    rw [Bool.and_eq_true, beq_iff_eq] at gives
    obtain ⟨rfl, answers⟩ := gives
    refine ⟨editor, p, ⟨read, written, plain, by rw [program], by rw [program]⟩, ?_⟩
    split at answers
    next w only => rw [only, beq_iff_eq.mp answers]
    next => cases answers
  next => cases gives

theorem gives_sums : ((rounds plain 1 (.start .default sums)).any fun s =>
    gives (utf8 "print a + readInt") (utf8 "7") s &&
      (round? plain s).any fun t => t.editor.upcoming.length == 1) = true := by
  decide +kernel

end Example

open Repl.Example in
/-- The second entry starts after the line of which the first one took a word, and takes an empty line and
one with two words. -/
theorem programs_take_fewest_lines_sums :
    ∃ s editor p, rounds plain 1 (.start .default sums) = some s ∧
      Accepts s (utf8 "print a + readInt") editor p ∧ received s editor p = [.ok (utf8 "7")] ∧
      ∃ taken rest t, editor.upcoming = taken.map .text ++ rest ∧ Fewest 1 taken ∧
        round? plain s = some t ∧ t.editor.upcoming = rest ∧ rest.length = 1 ∧
        t.history = s.history ++ [utf8 "print a + readInt"] ∧
        run plain .default sums = loop plain 5 t := by
  have found := gives_sums
  cases visited : rounds plain 1 (.start .default sums) with
  | none => rw [visited] at found; cases found
  | some s =>
    rw [visited, Option.any_some, Bool.and_eq_true] at found
    obtain ⟨gives, last⟩ := found
    obtain ⟨editor, p, accepts, answers⟩ := accepts_of_gives (by decide +kernel) (by decide +kernel) gives
    have short : ∀ t, .text t ∈ sums → t.length < WordReader.maxSize := by
      intro t member
      simp only [sums, List.mem_cons, EditorLine.text.injEq, List.not_mem_nil, or_false] at member
      obtain rfl | rfl | rfl | rfl | rfl | rfl := member <;> decide +kernel
    obtain ⟨own, taken, rest, t, -, upcoming, fewest, -, round, left, history, run⟩ :=
      programs_take_fewest_lines plain .default sums short visited accepts
        (fun r member => ⟨_, List.mem_singleton.mp (answers ▸ member)⟩)
    rw [answers] at fewest
    rw [round, Option.any_some, beq_iff_eq, left] at last
    refine ⟨s, editor, p, rfl, accepts, answers, taken, rest, t, upcoming, fewest, round, ?_, last, ?_, run⟩
    · rw [left]
    · rw [history]
      exact congrArg (s.history ++ [·]) (by decide +kernel)

end Repl

end CellScript
