import CellScript.Proofs.Text.Words

/-! A reader of words that an editor feeds with lines. What it holds and what is left of the latest line
make up one text, which ends with that line and fits the buffer. The reader gives the words of this text
one after the other, and asks for a line only when no word of it is left. -/
namespace CellScript

/-! ### The editor -/

namespace Editor

/-- The editor was asked for input and gave these lines. -/
structure Takes (e : Editor) (lines : List Text) (e' : Editor) : Prop where
  upcoming : e.upcoming = lines.map .text ++ e'.upcoming
  prompts : e'.prompts = e.prompts ++ List.replicate lines.length Source.inputPrompt
  entered : e'.entered = e.entered + lines.length

/-- Its next answer is no line. -/
def Dry (e : Editor) : Prop := ∀ t rest, e.upcoming ≠ .text t :: rest

theorem text_of_not_dry {e : Editor} (more : ¬e.Dry) : ∃ t rest, e.upcoming = .text t :: rest := by
  cases next : e.upcoming with
  | nil => exact absurd (fun t rest same => nomatch next.symm.trans same) more
  | cons l rest =>
    cases l with
    | text t => exact ⟨t, rest, rfl⟩
    | aborted | failed => exact absurd (fun t rest same => nomatch next.symm.trans same) more

namespace Takes

variable {e e' e'' : Editor} {lines more : List Text}

theorem nil (e : Editor) : e.Takes [] e := ⟨rfl, (List.append_nil _).symm, rfl⟩

theorem trans (first : e.Takes lines e') (second : e'.Takes more e'') : e.Takes (lines ++ more) e'' where
  upcoming := by rw [first.upcoming, second.upcoming, List.map_append, List.append_assoc]
  prompts := by
    rw [second.prompts, first.prompts, List.length_append, List.append_assoc, List.replicate_append_replicate]
  entered := by rw [second.entered, first.entered, List.length_append, Nat.add_assoc]

end Takes

theorem prompt_of_text {e : Editor} {t : Text} {rest : List EditorLine}
    (next : e.upcoming = .text t :: rest) :
    ∃ e', e.prompt Source.inputPrompt = (some (.text t), e') ∧ e.Takes [t] e' ∧ e'.upcoming = rest := by
  unfold prompt
  rw [next]
  exact ⟨_, rfl, ⟨next, rfl, rfl⟩, rfl⟩

end Editor

namespace Source

/-- The number of bytes in the lines to come, each with its end. -/
def ahead : List EditorLine → Nat
  | [] => 0
  | .text t :: lines => t.length + 1 + ahead lines
  | _ :: lines => ahead lines

theorem supply_editor (e : Editor) (line : Text) :
    supply (.editor e line) = line.length + ahead e.upcoming := by
  unfold supply
  dsimp only
  generalize line.length = n
  induction e.upcoming generalizing n with
  | nil => rfl
  | cons l lines ih =>
    rw [List.foldl_cons, ih]
    cases l with
    | text t => simp only [ahead, Nat.add_assoc]
    | aborted | failed => rfl

/-- What is left of a line is taken before the editor is asked. -/
theorem take_line (e : Editor) {line : Text} (some : line ≠ []) (room : Nat) :
    (Source.editor e line).take room = (.ok (line.take room), .editor e (line.drop room)) := by
  cases line with
  | nil => exact absurd rfl some
  | cons b line => rfl

theorem take_prompt {e e' : Editor} {t : Text} (answer : e.prompt inputPrompt = (some (.text t), e'))
    (room : Nat) :
    (Source.editor e []).take room = (.ok ((t ++ [10]).take room), .editor e' ((t ++ [10]).drop room)) := by
  rw [take, answer]

/-- Without a next line the source gives nothing, and at most one answer is gone. -/
theorem take_dry {e : Editor} (dry : e.Dry) (room : Nat) :
    ∃ stop e', (Source.editor e []).take room = (.error stop, .editor e' []) ∧
      e'.upcoming = e.upcoming.tail := by
  unfold take Editor.prompt
  dsimp only
  cases next : e.upcoming with
  | nil => exact ⟨_, _, rfl, rfl⟩
  | cons l rest =>
    cases l with
    | text t => exact absurd next (dry t rest)
    | aborted | failed => exact ⟨_, _, rfl, rfl⟩

end Source

/-- The source is the editor, at this or a later point. -/
def Source.Behind (e : Editor) (source : Source) : Prop :=
  ∃ e' line, source = .editor e' line ∧ e'.upcoming <:+ e.upcoming

theorem Source.Behind.take {e : Editor} {source : Source} (behind : source.Behind e) (room : Nat) :
    (source.take room).2.Behind e := by
  obtain ⟨e', line, rfl, later⟩ := behind
  by_cases some : line = []
  · subst some
    by_cases dry : e'.Dry
    · obtain ⟨stop, e'', taken, gone⟩ := Source.take_dry dry room
      rw [taken]
      exact ⟨e'', [], rfl, gone ▸ (List.tail_suffix _).trans later⟩
    · obtain ⟨t, rest, next⟩ := Editor.text_of_not_dry dry
      obtain ⟨e'', answer, -, upcoming⟩ := Editor.prompt_of_text next
      rw [Source.take_prompt answer]
      refine ⟨e'', _, rfl, ?_⟩
      rw [next] at later
      exact upcoming ▸ (List.suffix_cons _ _).trans later
  · rw [Source.take_line e' some]
    exact ⟨e', _, rfl, later⟩

namespace WordReader

variable {t u : Text} {w : Text} {used : Nat}

/-- A word found in the beginning of a text is the first word of the text. -/
theorem words_of_split (found : split t false = .word w used) (u : Text) :
    Text.words (t ++ u) = w :: Text.words (t.drop used ++ u) ∧ used ≤ t.length := by
  unfold split at found
  dsimp only at found
  cases after : t.trimStart.blankAfter? 0 with
  | none => rw [after] at found; cases found
  | some r =>
    rw [after] at found
    obtain ⟨rfl, rfl⟩ := Split.word.inj found
    have inside := Text.blankAfter_le after
    have shorter := t.trimStart_suffix.length_le
    have behind : t.drop (t.length - t.trimStart.length + r.1 + r.2) = t.trimStart.drop (r.1 + r.2) := by
      rw [Nat.add_assoc, ← List.drop_drop, t.drop_trimStart]
    rw [Text.words_append after u, behind]
    exact ⟨rfl, by omega⟩

/-- Where no word is found, no blank follows a word. -/
theorem blanks_of_split (found : split t false = .blanks used) :
    t.drop used = t.trimStart ∧ t.trimStart.blankAfter? 0 = none ∧ used ≤ t.length := by
  unfold split at found
  dsimp only at found
  cases after : t.trimStart.blankAfter? 0 with
  | some r => rw [after] at found; cases found
  | none =>
    rw [after] at found
    obtain rfl : t.length - t.trimStart.length = used := Split.blanks.inj found
    exact ⟨t.drop_trimStart, rfl, Nat.sub_le _ _⟩

/-- The reader has this much of the latest line to come. What it holds and the rest of the line fit the
buffer and end with the line. -/
structure Tidy (e : Editor) (line : Text) (r : WordReader) : Prop where
  source : r.source = .editor e line
  running : r.stop = none
  room : r.offset + r.held.length ≤ r.size
  limit : r.size ≤ maxSize
  fits : (r.held ++ line).length ≤ maxSize
  ended : r.held ++ line = [] ∨ (r.held ++ line).getLast? = some 10

/-- The editor is over for the reader. -/
structure Stopped (stop : ReadStop) (e : Editor) (r : WordReader) : Prop where
  source : r.source = .editor e []
  held : r.held = []
  stopped : r.stop = some stop

/-- The words that the reader gives before it asks for another line. -/
def Holds (e : Editor) (ws : List Text) (r : WordReader) : Prop :=
  ∃ line, r.Tidy e line ∧ Text.words (r.held ++ line) = ws

variable {e : Editor} {line : Text} {r : WordReader} {n : Nat}

theorem tidy_ofSource (e : Editor) : (ofSource (.editor e [])).Tidy e [] :=
  ⟨rfl, rfl, Nat.le_refl _, Nat.zero_le _, Nat.zero_le _, .inl rfl⟩

namespace Tidy

theorem drop (tidy : r.Tidy e line) (within : used ≤ r.held.length) :
    Tidy e line { r with offset := r.offset + used, held := r.held.drop used } where
  source := tidy.source
  running := tidy.running
  room := by
    have room := tidy.room
    rw [List.length_drop]
    dsimp only
    omega
  limit := tidy.limit
  fits := by
    have fits := tidy.fits
    rw [List.length_append] at fits ⊢
    rw [List.length_drop]
    omega
  ended := by
    dsimp only
    rw [← List.drop_append_of_le_length within]
    obtain none | ended := tidy.ended
    · exact .inl (by rw [none, List.drop_nil])
    · rw [List.getLast?_drop]
      split
      next all => exact .inl (List.drop_eq_nil_iff.mpr all)
      next => exact .inr ended

/-- The held bytes stand somewhere else, in a larger buffer. -/
theorem move (tidy : r.Tidy e line) {offset size : Nat} (room : offset + r.held.length ≤ size)
    (limit : size ≤ maxSize) : Tidy e line { r with offset := offset, size := size } :=
  ⟨tidy.source, tidy.running, room, limit, tidy.fits, tidy.ended⟩

/-- Where the held bytes are not a whole buffer of the largest size, room can be made for more. -/
theorem makeRoom (tidy : r.Tidy e line) (small : r.held.length < maxSize) :
    r.makeRoom.Tidy e line ∧ r.makeRoom.held = r.held ∧
      r.makeRoom.offset + r.makeRoom.held.length < r.makeRoom.size := by
  have room := tidy.room
  have limit := tidy.limit
  unfold WordReader.makeRoom
  by_cases moved : 0 < r.offset && (r.offset + r.held.length == r.size || r.size / 2 < r.offset)
  · rw [if_pos moved]
    have front : 0 + r.held.length < r.size := by
      simp only [Bool.and_eq_true, Bool.or_eq_true, decide_eq_true_eq, beq_iff_eq] at moved
      omega
    dsimp only
    rw [if_pos front]
    exact ⟨tidy.move (Nat.le_of_lt front) limit, rfl, front⟩
  · rw [if_neg moved]
    dsimp only
    split
    next free => exact ⟨tidy, rfl, free⟩
    next full =>
      simp only [Bool.and_eq_true, Bool.or_eq_true, decide_eq_true_eq, beq_iff_eq] at moved
      have whole : r.held.length = r.size := by omega
      rw [if_neg (by omega)]
      have larger : 0 + r.held.length < (if r.size = 0 then initialSize else min (2 * r.size) maxSize) ∧
          (if r.size = 0 then initialSize else min (2 * r.size) maxSize) ≤ maxSize := by
        unfold initialSize maxSize at *
        split <;> omega
      exact ⟨tidy.move (Nat.le_of_lt larger.1) larger.2, rfl, larger.1⟩

/-- Bytes that the source gives are held, as many as there is room for. -/
theorem fill {e' : Editor} {u : Text} (tidy : r.Tidy e line) (fits : (r.held ++ u).length ≤ maxSize)
    (ended : r.held ++ u = [] ∨ (r.held ++ u).getLast? = some 10)
    (taken : ∀ room, (Source.editor e line).take room = (.ok (u.take room), .editor e' (u.drop room))) :
    let room := r.size - r.offset - r.held.length
    r.fill.held = r.held ++ u.take room ∧ r.fill.Tidy e' (u.drop room) := by
  intro room
  have filled : r.fill = { r with source := .editor e' (u.drop room), held := r.held ++ u.take room } := by
    unfold WordReader.fill
    rw [tidy.source, taken]
  have whole : r.held ++ u.take room ++ u.drop room = r.held ++ u := by
    rw [List.append_assoc, List.take_append_drop]
  have within := tidy.room
  rw [filled]
  refine ⟨rfl, rfl, tidy.running, ?_, tidy.limit, whole ▸ fits, whole ▸ ended⟩
  dsimp only
  rw [List.length_append, List.length_take]
  omega

/-- Without a next line the reader stops. -/
theorem fill_dry (tidy : r.Tidy e []) (none : r.held = []) (dry : e.Dry) :
    ∃ stop e', Stopped stop e' r.fill ∧ e'.upcoming = e.upcoming.tail := by
  obtain ⟨stop, e', taken, gone⟩ := Source.take_dry dry (r.size - r.offset - r.held.length)
  refine ⟨stop, e', ?_, gone⟩
  unfold WordReader.fill
  rw [tidy.source, taken]
  exact ⟨rfl, none, rfl⟩

theorem next_of_word (tidy : r.Tidy e line) (found : split r.held false = .word w used) (n : Nat) :
    next (n + 1) r = (.ok w, { r with offset := r.offset + used, held := r.held.drop used }) := by
  unfold next
  rw [tidy.running, Option.isSome_none, found]

theorem next_of_blanks (tidy : r.Tidy e line) (found : split r.held false = .blanks used)
    (small : (r.held.drop used).length < maxSize) (n : Nat) :
    ∃ r' : WordReader, next (n + 1) r = next n r'.fill ∧ r'.Tidy e line ∧ r'.held = r.held.drop used ∧
      r'.offset + r'.held.length < r'.size := by
  obtain ⟨source, size, offset, bytes, stop⟩ := r
  obtain rfl : stop = none := tidy.running
  obtain ⟨-, -, within⟩ := blanks_of_split found
  obtain ⟨tidy', held, free⟩ := (tidy.drop within).makeRoom small
  refine ⟨_, ?_, tidy', held, free⟩
  have running := tidy'.running
  rw [next, Option.isSome_none, found]
  dsimp only at running ⊢
  rw [running]

end Tidy

/-- A reader that has stopped gives no word. -/
theorem Stopped.next {stop : ReadStop} (stopped : r.Stopped stop e) (n : Nat) :
    ∃ r' : WordReader, next (n + 1) r = (.error stop, r') ∧ r'.Stopped stop e := by
  have none : split [] true = .blanks 0 := by
    unfold split
    rw [Text.trimStart.eq_def]
    dsimp only
    rw [Text.blankAfter?_nil]
    rfl
  unfold WordReader.next
  rw [stopped.held, stopped.stopped, Option.isSome_some, none]
  exact ⟨_, rfl, stopped.source, rfl, rfl⟩

/-- What a reader gives that may ask for lines: the first word of what is left and of the lines that it
takes, which are as few as possible; or nothing, if no word is left before the editor gives no line. -/
inductive Reads (e : Editor) (ws : List Text) : Except ReadStop Text → WordReader → Prop where
  | word {lines : List Text} {w : Text} {ws' : List Text} {e' : Editor} {r : WordReader}
      (takes : e.Takes lines e') (first : ws ++ lines.flatMap Text.words = w :: ws')
      (fewest : ∀ j < lines.length, ws ++ (lines.take j).flatMap Text.words = [])
      (holds : r.Holds e' ws') : Reads e ws (.ok w) r
  | ended {lines : List Text} {stop : ReadStop} {e' e'' : Editor} {r : WordReader}
      (takes : e.Takes lines e') (none : ws ++ lines.flatMap Text.words = []) (dry : e'.Dry)
      (gone : e''.upcoming = e'.upcoming.tail) (stopped : r.Stopped stop e'') : Reads e ws (.error stop) r

/-- Where no word is left, a line is taken first. -/
theorem Reads.after_line {e' : Editor} {result : Except ReadStop Text} (takes : e.Takes [t] e')
    (reads : Reads e' (Text.words t) result r) : Reads e [] result r := by
  cases reads with
  | word later first fewest holds =>
    refine .word (takes.trans later) first (fun j less => ?_) holds
    cases j with
    | zero => rfl
    | succ j => exact fewest j (Nat.lt_of_succ_lt_succ less)
  | ended later none dry gone stopped => exact .ended (takes.trans later) none dry gone stopped

/-- Where no word is found and nothing of the line is to come, no word is left. -/
theorem Tidy.words_eq_nil (tidy : r.Tidy e []) (found : split r.held false = .blanks used) :
    r.held.drop used = [] ∧ Text.words r.held = [] := by
  obtain ⟨rest, none, -⟩ := blanks_of_split found
  have ended := tidy.ended
  rw [List.append_nil] at ended
  have empty : r.held.trimStart = [] := Text.trimStart_eq_nil ended none
  refine ⟨rest.trans empty, ?_⟩
  rw [← Text.words_trimStart, empty]
  exact Text.words_nil

/-- Where no word is found, more of the line is taken first. -/
theorem Tidy.next_in_line (tidy : r.Tidy e line) (found : split r.held false = .blanks used)
    (some : line ≠ []) (n : Nat) :
    ∃ (r' : WordReader) (line' : Text), next (n + 1) r = next n r' ∧ r'.Tidy e line' ∧
      Text.words (r'.held ++ line') = Text.words (r.held ++ line) ∧ line'.length < line.length := by
  obtain ⟨rest, -, within⟩ := blanks_of_split found
  have more := List.length_pos_iff.mpr some
  have small : (r.held.drop used).length < maxSize := by
    have fits := tidy.fits
    rw [List.length_append] at fits
    rw [List.length_drop]
    omega
  obtain ⟨r', step, tidy', held, free⟩ := tidy.next_of_blanks found small n
  obtain ⟨held', tidy''⟩ := tidy'.fill tidy'.fits tidy'.ended (Source.take_line e some)
  refine ⟨r'.fill, _, step, tidy'', ?_, ?_⟩
  · rw [held', List.append_assoc, List.take_append_drop, held, rest, Text.words_trimStart_append]
  · rw [List.length_drop]
    omega

/-- Where nothing is left of the line, the editor is asked for the next one. -/
theorem Tidy.next_after_line (tidy : r.Tidy e []) (found : split r.held false = .blanks used)
    {lines : List EditorLine} (more : e.upcoming = .text t :: lines) (short : t.length < maxSize) (n : Nat) :
    ∃ (r' : WordReader) (e' : Editor) (line' : Text), next (n + 1) r = next n r' ∧ e.Takes [t] e' ∧
      e'.upcoming = lines ∧ r'.Tidy e' line' ∧ Text.words (r'.held ++ line') = Text.words t ∧
      line'.length ≤ t.length := by
  obtain ⟨empty, -⟩ := tidy.words_eq_nil found
  obtain ⟨e', answer, takes, upcoming⟩ := Editor.prompt_of_text more
  obtain ⟨r', step, tidy', held, free⟩ := tidy.next_of_blanks found (by rw [empty]; decide) n
  rw [empty] at held
  have fits : (r'.held ++ (t ++ [10])).length ≤ maxSize := by
    rw [held, List.nil_append, List.length_append]
    exact short
  have ended : (r'.held ++ (t ++ [10])).getLast? = some 10 := by
    rw [held, List.nil_append, List.getLast?_concat]
  obtain ⟨held', tidy''⟩ := tidy'.fill fits (.inr ended) (Source.take_prompt answer)
  refine ⟨r'.fill, e', _, step, takes, upcoming, tidy'', ?_, ?_⟩
  · rw [held', List.append_assoc, List.take_append_drop, held, List.nil_append, Text.words_newline]
  · rw [List.length_drop, List.length_append, List.length_singleton]
    omega

/-- Where nothing is left of the line and the editor has none, the reader stops. -/
theorem Tidy.next_dry (tidy : r.Tidy e []) (found : split r.held false = .blanks used) (dry : e.Dry)
    (n : Nat) :
    ∃ (stop : ReadStop) (e' : Editor) (r' : WordReader), next (n + 2) r = (.error stop, r') ∧
      e'.upcoming = e.upcoming.tail ∧ r'.Stopped stop e' := by
  obtain ⟨empty, -⟩ := tidy.words_eq_nil found
  obtain ⟨r', step, tidy', held, -⟩ := tidy.next_of_blanks found (by rw [empty]; decide) (n + 1)
  obtain ⟨stop, e', stopped, gone⟩ := tidy'.fill_dry (held.trans empty) dry
  obtain ⟨r'', given, stopped'⟩ := stopped.next n
  exact ⟨stop, e', r'', step.trans given, gone, stopped'⟩

/-- Every read of a tidy reader. The induction is on the number of steps, of which there are enough for the
bytes to come. -/
theorem Tidy.reads (tidy : r.Tidy e line) (short : ∀ t, .text t ∈ e.upcoming → t.length < maxSize)
    (enough : r.source.supply + 2 ≤ n) :
    Reads e (Text.words (r.held ++ line)) (next n r).1 (next n r).2 := by
  induction n generalizing e line r with
  | zero => omega
  | succ n ih =>
    rw [tidy.source, Source.supply_editor] at enough
    cases found : split r.held false with
    | word w used =>
      obtain ⟨first, within⟩ := words_of_split found line
      rw [tidy.next_of_word found n]
      refine .word (.nil e) ?_ (fun j less => absurd less (Nat.not_lt_zero j)) ⟨line, tidy.drop within, rfl⟩
      rw [first]
      exact List.append_nil _
    | blanks used =>
      by_cases more : line = []
      · subst more
        obtain ⟨-, nothing⟩ := tidy.words_eq_nil found
        rw [List.append_nil, nothing]
        by_cases dry : e.Dry
        · obtain ⟨k, rfl⟩ := Nat.exists_eq_add_one.mpr (show 0 < n by omega)
          obtain ⟨stop, e', r', given, gone, stopped⟩ := tidy.next_dry found dry k
          rw [given]
          exact .ended (.nil e) rfl dry gone stopped
        · obtain ⟨t, lines, upcoming⟩ := Editor.text_of_not_dry dry
          have member : .text t ∈ e.upcoming := upcoming ▸ List.mem_cons_self
          obtain ⟨r', e', line', step, takes, rest, tidy', words, le⟩ :=
            tidy.next_after_line found upcoming (short t member) n
          rw [step]
          refine Reads.after_line takes (words ▸ ih tidy' (fun u member => short u ?_) ?_)
          · rw [rest] at member
            exact upcoming ▸ List.mem_cons_of_mem _ member
          · rw [upcoming, Source.ahead] at enough
            rw [tidy'.source, Source.supply_editor, rest]
            omega
      · obtain ⟨r', line', step, tidy', words, less⟩ := tidy.next_in_line found more n
        rw [step, ← words]
        refine ih tidy' short ?_
        rw [tidy'.source, Source.supply_editor]
        omega

theorem Holds.read {ws : List Text} (holds : r.Holds e ws)
    (short : ∀ t, .text t ∈ e.upcoming → t.length < maxSize) : Reads e ws r.read.1 r.read.2 := by
  obtain ⟨line, tidy, rfl⟩ := holds
  exact tidy.reads short (Nat.le_succ _)

/-- What reads gave that started at an editor. While they found words, these are the words of the lines that
the editor gave, which are as few as possible; the words that are left of the last one come next. -/
inductive Fed (e₀ : Editor) : List (Except ReadStop Text) → WordReader → Prop where
  | words {lines ws left : List Text} {e : Editor} {r : WordReader} (takes : e₀.Takes lines e)
      (words : lines.flatMap Text.words = ws ++ left)
      (fewest : ∀ j < lines.length, ((lines.take j).flatMap Text.words).length < ws.length)
      (holds : r.Holds e left) : Fed e₀ (ws.map .ok) r
  | ended {received : List (Except ReadStop Text)} {stop : ReadStop} {e : Editor} {r : WordReader}
      (failed : .error stop ∈ received) (stopped : r.Stopped stop e) : Fed e₀ received r

theorem fed_ofSource (e : Editor) : Fed e [] (ofSource (.editor e [])) :=
  @Fed.words e [] [] [] e _ (.nil e) rfl (fun j less => absurd less (Nat.not_lt_zero j))
    ⟨[], tidy_ofSource e, Text.words_nil⟩

/-- One more read. -/
theorem Fed.read {e₀ : Editor} (short : ∀ t, .text t ∈ e₀.upcoming → t.length < maxSize)
    {received : List (Except ReadStop Text)} (fed : Fed e₀ received r) :
    Fed e₀ (received ++ [r.read.1]) r.read.2 := by
  cases fed with
  | @ended _ stop e _ failed stopped =>
    obtain ⟨r', again, stopped'⟩ := stopped.next (r.source.supply + 2)
    have read : r.read = (.error stop, r') := again
    rw [read]
    exact .ended (List.mem_append_left _ failed) stopped'
  | @words lines ws left e _ takes words fewest holds =>
    have reads := holds.read fun t member => short t (takes.upcoming ▸ List.mem_append_right _ member)
    cases result : r.read.1 with
    | error stop =>
      rw [result] at reads
      cases reads with
      | ended takes' none dry gone stopped => exact .ended (List.mem_append_right _ List.mem_cons_self) stopped
    | ok w =>
      rw [result] at reads
      cases reads with
      | @word lines' _ left' e' _ takes' first fewest' holds' =>
        have whole : (lines ++ lines').flatMap Text.words = ws ++ [w] ++ left' := by
          rw [List.flatMap_append, words, List.append_assoc, first, List.append_assoc]
          rfl
        have received : (ws ++ [w]).map .ok = ws.map .ok ++ [(.ok w : Except ReadStop Text)] := by
          rw [List.map_append]
          rfl
        rw [← received]
        refine .words (takes.trans takes') whole (fun j less => ?_) holds'
        rw [List.length_append, List.length_singleton, List.take_append]
        obtain before | behind := Nat.lt_or_ge j lines.length
        · have fewer := fewest j before
          rw [Nat.sub_eq_zero_of_le (Nat.le_of_lt before), List.take_zero, List.append_nil]
          omega
        · -- all lines from before are there, and the new ones add no word
          rw [List.length_append] at less
          have none := fewest' (j - lines.length) (by omega)
          rw [List.take_of_length_le behind, List.flatMap_append, words, List.append_assoc, none,
            List.append_nil]
          exact Nat.lt_succ_self _

/-! ### Readers in any state -/

theorem source_makeRoom (r : WordReader) : r.makeRoom.source = r.source := by
  unfold makeRoom
  dsimp only
  split <;> split <;> first | rfl | (split <;> rfl)

theorem source_fill (r : WordReader) :
    r.fill.source = (r.source.take (r.size - r.offset - r.held.length)).2 := by
  unfold fill
  split
  next taken => rw [taken]
  next taken => rw [taken]

theorem behind_next (behind : r.source.Behind e) (n : Nat) : (next n r).2.source.Behind e := by
  induction n generalizing r with
  | zero => exact behind
  | succ n ih =>
    unfold next
    dsimp only
    split
    · exact behind
    · exact behind
    next used _ _ =>
      have kept := source_makeRoom { r with offset := r.offset + used, held := r.held.drop used }
      split
      · rw [kept]
        exact behind
      · refine ih ?_
        rw [source_fill, kept]
        exact behind.take _

end WordReader

end CellScript
