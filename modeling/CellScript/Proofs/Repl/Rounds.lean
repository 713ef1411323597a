import CellScript.Proofs.Checking.Globals
import CellScript.Proofs.Sessions
import CellScript.Repl

/-! The rounds of the interactive loop. A round that does not end the loop takes one session to another
with the same settings, in which every global name is still bound. So what the checks accept, they accept
ever after. -/
namespace CellScript

namespace Session

variable {s t : Session}

/-- What the checks say of a program keeps it from running if what they find does. -/
theorem anyError_check (s : Session) (path : Text) (p : Program) :
    Diagnostic.anyError (s.check path p) = Check.anyError (Check.program s.globals p) := by
  unfold Diagnostic.anyError check Check.anyError
  rw [List.any_map]
  rfl

/-- A session accepts a source that parses and in which the checks, if they are on, find no error. -/
theorem failure_compile_eq_none {path source : Text} : (s.compile path source).failure = none ↔
    ∃ p, Parser.parse source = .ok p ∧
      (s.config.check = true → Check.anyError (Check.program s.globals p) = false) := by
  unfold compile
  cases parsed : Parser.parse source with
  | error e => exact iff_of_false (Option.some_ne_none _) fun ⟨_, other, _⟩ => nomatch other
  | ok p =>
    simp only [Except.ok.injEq, exists_eq_left']
    cases s.config.check with
    | false => exact iff_of_true rfl fun on => absurd on Bool.false_ne_true
    | true =>
      simp only [if_true, anyError_check, true_implies]
      cases Check.anyError (Check.program s.globals p) with
      | false => exact iff_of_true rfl rfl
      | true => exact iff_of_false (Option.some_ne_none _) Bool.noConfusion

/-- What one session accepts is accepted by every one with the same settings that knows more names. -/
theorem accepts_of_more (config : t.config = s.config) (more : s.globals ⊆ t.globals) {path source : Text}
    (accepted : (s.compile path source).failure = none) : (t.compile path source).failure = none := by
  obtain ⟨p, parsed, clean⟩ := failure_compile_eq_none.mp accepted
  refine failure_compile_eq_none.mpr ⟨p, parsed, fun on => ?_⟩
  rw [config] at on
  exact Check.anyError_of_more more (clean on)

theorem config_execute (s : Session) (feed : Feed) (sink : Sink) (p : Program) :
    (s.execute feed sink p).2.config = s.config :=
  s.config_connect feed

theorem config_run (s : Session) (feed : Feed) (sink : Sink) (path source : Text) :
    (s.run feed sink path source).2.config = s.config := by
  unfold run
  dsimp only
  split
  · exact s.config_execute feed sink _
  · rfl

/-- No step loses a global name. -/
theorem AtRest.globals_subset (rest : s.AtRest) (step : Step) : s.globals ⊆ (s.perform step).globals := by
  intro name member
  have bound := (rest.perform step).grown.isSome_global (Bindings.isSome_get?_of_sortedNames member)
  exact List.mem_mergeSort.mpr (Bindings.isSome_get?.mp bound)

end Session

namespace Repl

/-- What a round makes of the state, unless it ends the loop. -/
def round? (paint : Paint) (s : State) : Option State :=
  match readEntry (s.editor.upcoming.length + 1) s.editor [] with
  | (none, _) => none
  | (some entry, editor) =>
    let s := { s with editor := editor }
    if entry.trim.isEmpty then some s
    else
      let s := { s with history := s.history ++ [Text.replaceByte 10 32 entry] }
      if isCommand entry then (command? s entry).map fun shown => { s with stdout := s.stdout ++ shown }
      else some (runEntry paint s entry)

/-- The state after some rounds, unless one of them ends the loop. -/
def rounds (paint : Paint) : Nat → State → Option State
  | 0, s => some s
  | n + 1, s => (round? paint s).bind (rounds paint n)

variable {paint : Paint} {s t : State}

def State.running (s : State) (entry : Text) (editor : Editor) : State :=
  { s with editor, history := s.history ++ [Text.replaceByte 10 32 entry] }

/-- What a round can be that does not end the loop. -/
inductive Round (paint : Paint) (s : State) (entry : Text) (editor : Editor) : State → Prop where
  | blank (blank : entry.trim.isEmpty = true) : Round paint s entry editor { s with editor }
  | command {shown : Text} (written : entry.trim.isEmpty = false) (command : isCommand entry = true)
      (known : command? (s.running entry editor) entry = some shown) :
      Round paint s entry editor { s.running entry editor with stdout := s.stdout ++ shown }
  | program (written : entry.trim.isEmpty = false) (plain : isCommand entry = false) :
      Round paint s entry editor (runEntry paint (s.running entry editor) entry)

theorem round_cases (next : round? paint s = some t) : ∃ entry editor,
    readEntry (s.editor.upcoming.length + 1) s.editor [] = (some entry, editor) ∧
      Round paint s entry editor t := by
  unfold round? at next
  split at next
  next => cases next
  next entry editor read =>
    refine ⟨entry, editor, read, ?_⟩
    dsimp only at next
    split at next
    next blank =>
      cases next
      exact .blank blank
    next written =>
      have written := Bool.eq_false_iff.mpr written
      split at next
      next command =>
        obtain ⟨shown, known, rfl⟩ := Option.map_eq_some_iff.mp next
        exact .command written command known
      next plain =>
        cases next
        exact .program written (Bool.eq_false_iff.mpr plain)

/-- The loop goes on with the state after a round. -/
theorem loop_of_round (next : round? paint s = some t) (steps : Nat) :
    loop paint (steps + 1) s = loop paint steps t := by
  obtain ⟨entry, editor, read, round⟩ := round_cases next
  rw [loop, read]
  dsimp only
  cases round with
  | blank blank => rw [if_pos blank]
  | command written command known =>
    unfold State.running at known
    rw [if_neg (Bool.eq_false_iff.mp written), if_pos command, known]
    rfl
  | program written plain =>
    rw [if_neg (Bool.eq_false_iff.mp written), if_neg (Bool.eq_false_iff.mp plain)]
    rfl

theorem loop_of_rounds (n : Nat) {s : State} (ahead : rounds paint n s = some t) (steps : Nat) :
    loop paint (steps + n) s = loop paint steps t := by
  induction n generalizing s with
  | zero => rw [Option.some.inj ahead]; rfl
  | succ n ih =>
    obtain ⟨next, first, ahead⟩ := Option.bind_eq_some_iff.mp ahead
    rw [← Nat.add_assoc, loop_of_round first, ih ahead]

/-- An interactive session passes through the states after its rounds. -/
theorem run_of_rounds {config : Config} {lines : List EditorLine} {n : Nat} (few : n ≤ lines.length)
    (ahead : rounds paint n (.start config lines) = some t) :
    run paint config lines = loop paint (lines.length + 1 - n) t := by
  have all : lines.length + 1 = lines.length + 1 - n + n := by omega
  rw [run, all, loop_of_rounds n ahead, Nat.add_sub_cancel]

/-- Only the run of an entry changes the session. -/
theorem session_of_round (next : round? paint s = some t) :
    t.session = s.session ∨ ∃ feed sink entry,
      t.session = s.session.perform (.run feed sink entryPath entry) := by
  obtain ⟨entry, editor, -, round⟩ := round_cases next
  cases round with
  | blank | command => exact .inl rfl
  | program => exact .inr ⟨_, _, entry, rfl⟩

/-- One session is another at a later point. -/
structure Later (s t : Session) : Prop where
  rest : t.AtRest
  config : t.config = s.config
  globals : s.globals ⊆ t.globals

theorem later_of_round (rest : s.session.AtRest) (next : round? paint s = some t) :
    Later s.session t.session := by
  obtain same | ⟨feed, sink, entry, same⟩ := session_of_round next
  · rw [same]
    exact ⟨rest, rfl, List.Subset.refl _⟩
  · rw [same]
    exact ⟨(rest.perform _).rest, s.session.config_run feed sink entryPath entry, rest.globals_subset _⟩

theorem later_of_rounds (n : Nat) {s : State} (rest : s.session.AtRest) (ahead : rounds paint n s = some t) :
    Later s.session t.session := by
  induction n generalizing s with
  | zero =>
    rw [Option.some.inj ahead] at rest ⊢
    exact ⟨rest, rfl, List.Subset.refl _⟩
  | succ n ih =>
    obtain ⟨next, first, ahead⟩ := Option.bind_eq_some_iff.mp ahead
    have before := later_of_round rest first
    have behind := ih before.rest ahead
    exact ⟨behind.rest, behind.config.trans before.config, List.Subset.trans before.globals behind.globals⟩

/-- The more names are bound before a program, the less the checks find: exactly the reports about the
new names go, and everything else stays in its place. So an entry that an interactive session accepts
after some rounds is accepted by it after any further ones. -/
theorem checks_accept_ever_after (paint : Paint) (config : Config) (lines : List EditorLine) :
    (∀ p globals more all, (∀ name, name ∈ all ↔ name ∈ globals ∨ name ∈ more) →
      Check.program all p = Check.without more (Check.program globals p)) ∧
    ∀ n k s t, rounds paint n (.start config lines) = some s → rounds paint k s = some t →
      ∀ entry, (s.session.compile entryPath entry).failure = none →
        (t.session.compile entryPath entry).failure = none := by
  refine ⟨fun p globals more all union => Check.program_without union p, ?_⟩
  intro n k s t before behind entry accepted
  have start : (State.start config lines).session.AtRest := ⟨rfl, rfl⟩
  have later := later_of_rounds k (later_of_rounds n start before).rest behind
  exact Session.accepts_of_more later.config later.globals accepted

namespace Example

def dialogue : List EditorLine :=
  [.text (utf8 "var a := 1"), .text (utf8 "var b := a"), .text (utf8 "print b")]

def plain : Paint := ⟨false⟩

def accepts (entry : Text) (s : State) : Bool := (s.session.compile entryPath entry).failure.isNone

theorem accepted_dialogue :
    accepts (utf8 "print a") (.start .default dialogue) = false ∧
      ((rounds plain 1 (.start .default dialogue)).any fun s =>
        accepts (utf8 "print a") s && (rounds plain 1 s).isSome) = true := by
  decide +kernel

theorem parsed_pair : (match Parser.parse (utf8 "print a; print z") with
    | .ok p => (Check.program [] p).map (·.problem)
    | .error _ => []) = [.undefinedName (utf8 "a"), .undefinedName (utf8 "z")] := by
  decide +kernel

end Example

open Repl.Example in
/-- A name is known from the round that declares it: the checks report it no longer, but do report
another one. -/
theorem checks_accept_ever_after_dialogue :
    (∃ p, Parser.parse (utf8 "print a; print z") = .ok p ∧
      (Check.program [] p).map (·.problem) = [.undefinedName (utf8 "a"), .undefinedName (utf8 "z")] ∧
      Check.program [utf8 "a"] p = Check.without [utf8 "a"] (Check.program [] p)) ∧
    accepts (utf8 "print a") (.start .default dialogue) = false ∧
    ∃ s t, rounds plain 1 (.start .default dialogue) = some s ∧ rounds plain 1 s = some t ∧
      (s.session.compile entryPath (utf8 "print a")).failure = none ∧
      (t.session.compile entryPath (utf8 "print a")).failure = none := by
  obtain ⟨less, lasting⟩ := checks_accept_ever_after plain .default dialogue
  obtain ⟨refused, accepted⟩ := accepted_dialogue
  refine ⟨?_, refused, ?_⟩
  · have found := parsed_pair
    cases parsed : Parser.parse (utf8 "print a; print z") with
    | error e => rw [parsed] at found; cases found
    | ok p =>
      rw [parsed] at found
      exact ⟨p, rfl, found, less p [] [utf8 "a"] [utf8 "a"] fun name => by simp⟩
  · cases first : rounds plain 1 (.start .default dialogue) with
    | none => rw [first] at accepted; cases accepted
    | some s =>
      rw [first, Option.any_some, Bool.and_eq_true] at accepted
      obtain ⟨t, second⟩ := Option.isSome_iff_exists.mp accepted.2
      have accepted := Option.isNone_iff_eq_none.mp accepted.1
      exact ⟨s, t, rfl, second, accepted, lasting 1 1 s t first second _ accepted⟩

end Repl

end CellScript
