import CellScript.Json.Reader

/-! Reading through the window. The bytes ahead and those still to arrive make up the rest of the text;
a refill brings the next byte into sight, and two bring any few next bytes. A step is described by what it gives
for a rest of text, whatever of it the window shows. -/
namespace CellScript.Json

/-- The window stands before the text, of which it shows a beginning. -/
structure Window.Holds (t : Text) (w : Window) : Prop where
  whole : w.ahead ++ w.pending = t
  live : w.live = w.ahead.length
  fits : w.ahead.length < w.room
  slack : w.brim = false → w.ahead.length + 1 < w.room
  within : w.passed + w.room ≤ w.size
  size : startSize ≤ w.size
  unended : w.pending ≠ [] → w.ended = false
  nonzero : 0 ∉ t

/-- The window stands before the text and shows more than `n` bytes of it. -/
structure Window.Shows (n : Nat) (t : Text) (w : Window) : Prop extends w.Holds t where
  shown : n < w.ahead.length

open Window (Holds Shows)

section Window

variable {t r : Text} {w : Window}

theorem holds_ofText (nonzero : 0 ∉ t) : Holds t (.ofText t) where
  whole := rfl
  live := rfl
  fits := Nat.zero_lt_succ _
  slack _ := Nat.le_of_ble_eq_true rfl
  within := Nat.le_of_eq (Nat.zero_add _)
  size := Nat.le_refl _
  unended _ := rfl
  nonzero := nonzero

theorem Window.Holds.length_le (held : Holds t w) : w.ahead.length ≤ t.length := by
  rw [← held.whole, List.length_append]
  exact Nat.le_add_right _ _

theorem Window.Holds.grow (held : Holds t w) : Holds t w.grow := by
  unfold Window.grow
  split
  next =>
    have ⟨whole, live, fits, slack, within, size, unended, nonzero⟩ := held
    refine ⟨whole, live, ?_, ?_, ?_, ?_, unended, nonzero⟩
    all_goals simp only at *; omega
  next => exact held

/-- A window that was full has room for all of its old size after it has grown. -/
theorem Window.Holds.room_grow (held : Holds t w) (full : w.brim) :
    w.size < w.grow.room - w.ahead.length := by
  have fits := held.fits
  have within := held.within
  simp only [Window.grow, full, if_true]
  omega

/-- The bytes ahead are kept by a refill, as there is no zero among them. -/
theorem Window.Holds.kept (held : Holds t w) :
    (w.ahead.take w.live).takeWhile (· != 0) = w.ahead := by
  rw [held.live, List.take_length]
  have plain : ∀ b ∈ w.ahead, (b != 0) = true := by
    intro b ahead
    have member : b ∈ t := held.whole ▸ List.mem_append_left _ ahead
    exact bne_iff_ne.mpr fun zero => held.nonzero (zero ▸ member)
  have all := @List.takeWhile_append_of_pos _ _ w.ahead [] plain
  rwa [List.append_nil, List.takeWhile_nil, List.append_nil] at all

/-- A refill shows more of the text: enough, or it leaves a window that the next refill makes larger. -/
theorem Window.Holds.refill {n : Nat} (held : Holds t w) (more : n < t.length)
    (small : n < startSize) (short : w.ahead.length ≤ n) :
    ∃ w', w.refill? = some w' ∧ Holds t w' ∧ w.ahead.length < w'.ahead.length ∧
      (n < w'.ahead.length ∨ (w.brim = false ∧ w'.brim = true)) := by
  have total : w.ahead.length + w.pending.length = t.length := by
    rw [← held.whole, List.length_append]
  have waiting : w.ended = false := by
    refine held.unended fun none => ?_
    rw [none, List.length_nil] at total
    omega
  have grown := held.grow
  have ahead : w.grow.ahead = w.ahead := by unfold Window.grow; split <;> rfl
  have pending : w.grow.pending = w.pending := by unfold Window.grow; split <;> rfl
  have fits := grown.fits
  have size := grown.size
  have spacious := held.room_grow
  have slack := held.slack
  have large := held.size
  rw [ahead] at fits
  unfold Window.refill?
  rw [waiting, if_neg nofun]
  simp only [grown.kept]
  refine ⟨_, rfl, ⟨?_, ?_, ?_, ?_, grown.within, size, ?_, held.nonzero⟩, ?_, ?_⟩
  all_goals
    simp only [ahead, pending, List.length_append, List.length_take,
      List.drop_eq_nil_of_le (Nat.le_add_right _ _), List.take_nil, List.append_nil]
  · rw [List.append_assoc, List.take_append_drop]
    exact held.whole
  · omega
  · intro low
    rw [beq_eq_false_iff_ne] at low
    omega
  · intro left
    simp only [List.isEmpty_eq_false_iff]
    rintro none
    simp [none] at left
  · cases full : w.brim with
    | true =>
      have room := spacious full
      omega
    | false =>
      have same : w.grow.room = w.room := by simp [Window.grow, full]
      have room := slack full
      omega
  · cases full : w.brim with
    | true =>
      have room := spacious full
      exact .inl (by omega)
    | false =>
      by_cases all : w.pending.length < w.grow.room - w.ahead.length - 1
      · exact .inl (by omega)
      · refine .inr ⟨rfl, ?_⟩
        rw [beq_iff_eq]
        omega

/-- Passing over bytes in sight. -/
theorem Window.Shows.pass {n held : Nat} {s : Text} (shows : Shows n (s ++ r) w)
    (count : s.length = n + 1) (few : held ≤ n + 1) : Holds r (w.pass (n + 1) held) := by
  have ⟨⟨whole, live, fits, slack, within, size, unended, nonzero⟩, shown⟩ := shows
  have split : w.ahead.drop (n + 1) ++ w.pending = r := by
    rw [← List.drop_append_of_le_length shown, whole]
    exact List.drop_left' count
  refine ⟨split, ?_, ?_, fun low => ?_, ?_, size, unended, fun zero => nonzero (List.mem_append_right _ zero)⟩
  all_goals simp only [Window.pass, List.length_drop]
  · omega
  · omega
  · have room := slack low
    omega
  · omega

theorem Window.Shows.advance {b : UInt8} (shows : Shows 0 (b :: r) w) : Holds r w.advance :=
  Window.Shows.pass (s := [b]) shows rfl (Nat.le_refl _)

theorem Window.Shows.current {b : UInt8} (shows : Shows 0 (b :: r) w) : w.current = b := by
  have whole := shows.whole
  have shown := shows.shown
  unfold Window.current
  cases ahead : w.ahead with
  | nil => simp [ahead] at shown
  | cons c cs =>
    rw [ahead] at whole
    exact (List.cons.inj whole).1

theorem Window.current_zero (short : ¬ 0 < w.ahead.length) : w.current = 0 := by
  unfold Window.current
  rw [List.eq_nil_of_length_eq_zero (Nat.eq_zero_of_not_pos short)]
  rfl

theorem Window.Holds.release (held : Holds t w) : Holds t w.release := by
  have ⟨whole, live, fits, slack, within, size, unended, nonzero⟩ := held
  refine ⟨whole, live, fits, slack, ?_, size, unended, nonzero⟩
  simp only [Window.release]
  omega

theorem Window.Holds.unpass (held : Holds t w) : Holds t { w with passed := w.passed - 1 } := by
  have ⟨whole, live, fits, slack, within, size, unended, nonzero⟩ := held
  refine ⟨whole, live, fits, slack, ?_, size, unended, nonzero⟩
  simp only
  omega

/-- The bytes in sight are those of the text. -/
theorem Window.Shows.take_drop {n k : Nat} (shows : Shows n t w) (few : k ≤ n) :
    (w.ahead.drop 1).take k = (t.drop 1).take k := by
  have shown := shows.shown
  rw [← shows.whole, List.drop_append_of_le_length (by omega),
    List.take_append_of_le_length (by rw [List.length_drop]; omega)]

end Window

/-- From every window of the first kind the step succeeds with the value and leaves one of the second. -/
def Reads {α : Type} (before : Window → Prop) (step : Reading α) (a : α) (after : Window → Prop) : Prop :=
  ∀ w, before w → ∃ w', step.run w = some (a, w') ∧ after w'

section Reads

variable {α β : Type} {before between after : Window → Prop} {a : α} {b : β}

theorem reads_pure : Reads before (pure a) a before :=
  fun w held => ⟨w, rfl, held⟩

theorem Reads.bind {step : Reading α} {next : α → Reading β} (first : Reads before step a between)
    (rest : Reads between (next a) b after) : Reads before (step >>= next) b after := by
  intro w held
  obtain ⟨m, run, held⟩ := first w held
  obtain ⟨w', run', held⟩ := rest m held
  exact ⟨w', by rw [StateT.run_bind, run]; exact run', held⟩

theorem Reads.of_imp {weaker : Window → Prop} {step : Reading α} (reads : Reads weaker step a after)
    (imp : ∀ w, before w → weaker w) : Reads before step a after :=
  fun w held => reads w (imp w held)

theorem reads_modify {f : Window → Window} (moved : ∀ w, before w → after (f w)) :
    Reads before (modify f) () after :=
  fun w held => ⟨f w, rfl, moved w held⟩

theorem reads_peek {t : Text} {c : UInt8} : Reads (Shows 0 (c :: t)) Reading.peek c (Shows 0 (c :: t)) :=
  fun w shows => ⟨w, by rw [← shows.current]; rfl, shows⟩

theorem reads_advance {t : Text} {c : UInt8} : Reads (Shows 0 (c :: t)) Reading.advance () (Holds t) :=
  reads_modify fun _ shows => shows.advance

/-- What is not in sight comes with a refill. -/
theorem Window.Holds.shows_or_refill {t : Text} {c : UInt8} {w : Window} (held : Holds (c :: t) w) :
    Shows 0 (c :: t) w ∨ (w.current = 0 ∧ ∃ w', w.refill? = some w' ∧ Shows 0 (c :: t) w') := by
  by_cases visible : 0 < w.ahead.length
  · exact .inl ⟨held, visible⟩
  obtain ⟨w', filled, held', more, -⟩ := held.refill (Nat.zero_lt_succ _) (by decide) (Nat.le_of_not_lt visible)
  exact .inr ⟨Window.current_zero visible, w', filled, held', Nat.zero_lt_of_lt more⟩

/-- A step that asks for more while it sees nothing need only be described for a window that shows the next
byte. -/
theorem reads_of_shown {t : Text} {c : UInt8} {f : Nat → Reading α} (least : Nat)
    (again : ∀ {n w w'}, w.current = 0 → w.refill? = some w' → (f (n + 1)).run w = (f n).run w')
    (shown : ∀ n, least ≤ n → Reads (Shows 0 (c :: t)) (f n) a after) {n : Nat}
    (steps : least + 1 ≤ n) : Reads (Holds (c :: t)) (f n) a after := by
  intro w held
  rcases held.shows_or_refill with shows | ⟨zero, w', filled, shows⟩
  · exact shown n (by omega) w shows
  · obtain ⟨n, rfl⟩ : ∃ m, n = m + 1 := ⟨n - 1, by omega⟩
    rw [again zero filled]
    exact shown n (by omega) w' shows

end Reads

end CellScript.Json
