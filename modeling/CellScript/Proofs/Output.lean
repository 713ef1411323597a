import CellScript.Output

/-! What reaches a destination through a buffer. However the buffer cuts a text into pieces, a
destination that takes everything is in the end as if it had taken the text at once; any other one
has taken a beginning of it. -/
namespace CellScript

namespace Sink

variable {s s' : Sink}

theorem take_empty (s : Sink) : s.take #[] = s := rfl

theorem text_take (s : Sink) (piece : Array UInt8) : (s.take piece).text = s.text ++ piece.toList := by
  unfold take
  split
  next empty =>
    rw [Array.isEmpty_iff.mp empty]
    exact (List.append_nil _).symm
  next => exact Array.toList_append

theorem limit_take (s : Sink) (piece : Array UInt8) : (s.take piece).limit = s.limit := by
  unfold take
  split <;> rfl

/-- Two pieces after each other are one piece. -/
theorem take_take (s : Sink) (first second : Array UInt8) :
    (s.take first).take second = s.take (first ++ second) := by
  by_cases none : second = #[]
  · subst none
    rw [Array.append_empty]
    rfl
  by_cases nothing : first = #[]
  · subst nothing
    rw [Array.empty_append]
    rfl
  have back : (first ++ second).back? = second.back? := by
    rw [Array.back?_append]
    cases last : second.back? with
    | none => exact absurd (Array.back?_eq_none_iff.mp last) none
    | some b => rfl
  simp [take, none, nothing, back, Array.append_assoc]

/-- A piece is taken as a whole or not at all. -/
theorem offer?_eq_some {piece : Array UInt8} (offered : s.offer? piece = some s') :
    s' = s.take piece := by
  unfold offer? at offered
  split at offered
  · split at offered <;> cases offered
    rfl
  · exact (Option.some.inj offered).symm

theorem offerWhole?_eq_some {piece : Array UInt8} (offered : s.offerWhole? piece = some s') :
    s' = s.take piece := by
  unfold offerWhole? at offered
  split at offered
  · exact offer?_eq_some offered
  · exact (Option.some.inj offered).symm

theorem offer?_of_free (free : s.limit = none) (piece : Array UInt8) :
    s.offer? piece = some (s.take piece) := by
  unfold offer?
  rw [free]

theorem offerWhole?_of_free (free : s.limit = none) (piece : Array UInt8) :
    s.offerWhole? piece = some (s.take piece) := by
  unfold offerWhole?
  split
  · exact offer?_of_free free piece
  · rfl

end Sink

namespace Output

variable {o : Output} {s t : Text}

/-- The destination as it will be when the buffer is passed on. -/
def shown (o : Output) : Sink := o.sink.take o.pending

/-- A destination that takes everything, and has so far, with a program that runs. -/
structure Free (o : Output) : Prop where
  limit : o.sink.limit = none
  failed : o.failed = false
  linked : o.linked = true

theorem text_shown (o : Output) : o.shown.text = o.sink.text ++ o.pending.toList := Sink.text_take _ _

theorem shown_toSink (sink : Sink) : (toSink sink).shown = sink := rfl

theorem free_toSink {sink : Sink} (free : sink.limit = none) : (toSink sink).Free := ⟨free, rfl, rfl⟩

theorem Free.flush_eq (free : o.Free) : o.flush = .toSink o.shown := by
  obtain ⟨sink, pending, failed, linked⟩ := o
  obtain ⟨limit, rfl, rfl⟩ := free
  unfold flush
  by_cases nothing : pending = #[]
  · subst nothing
    rfl
  · simp [nothing, Sink.offer?_of_free limit, toSink, shown]

theorem Free.flush (free : o.Free) : o.flush.Free := by
  rw [free.flush_eq]
  exact free_toSink ((Sink.limit_take _ _).trans free.limit)

theorem Free.beforeRead (free : o.Free) : o.beforeRead = o.flush := if_pos free.linked

theorem Free.shown_flush (free : o.Free) : o.flush.shown = o.shown := by
  rw [free.flush_eq]
  rfl

theorem append_text (pending : Array UInt8) (t : Text) : pending ++ t = pending ++ t.toArray := by
  apply Array.ext'
  simp

/-- What writing a text may amount to: nothing is taken any more, the text joins what is pending, a
large text goes past the empty buffer, or a part of it joins and the buffer is passed on. -/
inductive Writes : Output → Text → Output → Prop where
  | refused {o : Output} (failed : o.failed = true) (t : Text) : Writes o t o
  | kept {o : Output} (usable : o.failed = false) (t : Text) :
    Writes o t { o with pending := o.pending ++ t }
  | whole {o : Output} {t : Text} {sink : Sink} (usable : o.failed = false)
      (nothing : o.pending = #[]) (offered : o.sink.offerWhole? t.toArray = some sink) :
    Writes o t { o with sink := sink }
  | wholeRefused {o : Output} {t : Text} (usable : o.failed = false)
      (refused : o.sink.offerWhole? t.toArray = none) : Writes o t { o with failed := true }
  | piece {o o' : Output} {part rest : Text} (usable : o.failed = false)
      (further : Writes (flush { o with pending := o.pending ++ part }) rest o') :
    Writes o (part ++ rest) o'

theorem linked_flush (o : Output) : o.flush.linked = o.linked := by
  unfold flush
  split
  · rfl
  · split <;> rfl

/-- Only a linked output can be refused something before a read. -/
theorem linked_beforeRead (usable : o.failed = false) (refused : o.beforeRead.failed = true) :
    o.beforeRead.linked = true := by
  unfold beforeRead at refused ⊢
  split
  next linked => rw [linked_flush, linked]
  next unlinked =>
    rw [if_neg unlinked, usable] at refused
    cases refused

/-- A buffer that was passed on is empty. -/
theorem pending_flush (usable : o.flush.failed = false) : o.flush.pending = #[] := by
  unfold flush at usable ⊢
  split
  next idle =>
    rw [if_pos idle] at usable
    rw [usable, Bool.false_or, Array.isEmpty_iff] at idle
    exact idle
  next active =>
    rw [if_neg active] at usable
    split
    · rfl
    next refused =>
      rw [refused] at usable
      cases usable

theorem writes_writeFresh (nothing : o.failed = false → o.pending = #[]) (t : Text) :
    Writes o t (o.writeFresh t) := by
  fun_induction Output.writeFresh o t with
  | case1 o t failed => exact .refused failed t
  | case2 o t usable fits =>
    have usable : o.failed = false := Bool.not_eq_true _ ▸ usable
    have joined : o.pending ++ t = t.toArray := by simp [nothing usable]
    exact joined ▸ .kept usable t
  | case3 o t usable large whole sink offered =>
    have usable : o.failed = false := Bool.not_eq_true _ ▸ usable
    exact .whole usable (nothing usable) offered
  | case4 o t usable large whole refused =>
    exact .wholeRefused (Bool.not_eq_true _ ▸ usable) refused
  | case5 o t usable large cut ih =>
    have usable : o.failed = false := Bool.not_eq_true _ ▸ usable
    have joined : o.pending ++ t.take capacity = (t.take capacity).toArray := by
      simp [nothing usable]
    have further := ih fun usable => pending_flush usable
    rw [← joined] at further
    have pieces := Writes.piece usable further
    rw [List.take_append_drop, joined] at pieces
    exact pieces

theorem writes_write (o : Output) (t : Text) : Writes o t (o.write t) := by
  unfold write
  dsimp only
  split
  next failed => exact .refused failed t
  next usable =>
    have usable : o.failed = false := Bool.not_eq_true _ ▸ usable
    split
    · exact .kept usable t
    split
    next nothing => exact writes_writeFresh (fun _ => Array.isEmpty_iff.mp nothing) t
    next =>
      have further := writes_writeFresh (fun usable => pending_flush usable)
        (o := flush { o with pending := o.pending ++ t.take (capacity - o.pending.size) })
        (t.drop (capacity - o.pending.size))
      have pieces := Writes.piece usable further
      rw [List.take_append_drop] at pieces
      exact pieces

theorem write_nil (o : Output) : o.write [] = o := by
  unfold write
  dsimp only
  split
  · rfl
  · obtain ⟨sink, pending, failed, linked⟩ := o
    simp

/-! ### Destinations that take everything -/

theorem Writes.free {o' : Output} (writes : Writes o t o') (free : o.Free) :
    o'.Free ∧ o'.shown = o.shown.take t.toArray := by
  induction writes with
  | refused failed t => rw [free.failed] at failed; cases failed
  | @kept o _ t =>
    constructor
    · exact ⟨free.limit, free.failed, free.linked⟩
    · unfold shown
      rw [Sink.take_take, append_text]
  | @whole o t sink _ nothing offered =>
    have taken := Sink.offerWhole?_eq_some offered
    subst taken
    constructor
    · exact ⟨(Sink.limit_take _ _).trans free.limit, free.failed, free.linked⟩
    · simp only [shown, nothing, Sink.take_empty]
  | wholeRefused _ refused =>
    rw [Sink.offerWhole?_of_free free.limit] at refused
    cases refused
  | @piece o o' part rest usable further ih =>
    have joined : Free { o with pending := o.pending ++ part } := ⟨free.limit, free.failed, free.linked⟩
    obtain ⟨after, shown⟩ := ih joined.flush
    refine ⟨after, ?_⟩
    rw [shown, joined.shown_flush]
    unfold Output.shown
    rw [Sink.take_take, Sink.take_take]
    congr 1
    simp [append_text]

theorem Free.write (free : o.Free) (t : Text) :
    (o.write t).Free ∧ (o.write t).shown = o.shown.take t.toArray :=
  (writes_write o t).free free

/-! ### All destinations -/

/-- Of the text `t`, which came after `s`, the destination has a beginning; if nothing was refused, the
rest is pending. -/
structure Carries (s t : Text) (o : Output) : Prop where
  taken : ∃ r, o.sink.text = s ++ r ∧ r <+: t
  shown : o.failed = false → o.shown.text = s ++ t

theorem carries_toSink (sink : Sink) : Carries sink.text [] (toSink sink) :=
  ⟨⟨[], (List.append_nil _).symm, List.nil_prefix⟩, fun _ => (List.append_nil _).symm⟩

namespace Carries

/-- What is shown has the text of the destination before it. -/
theorem of_shown (text : o.shown.text = s ++ t) (before : s <+: o.sink.text) : Carries s t o := by
  constructor
  case taken =>
    obtain ⟨r, old⟩ := before
    rw [text_shown, ← old, List.append_assoc, List.append_cancel_left_eq] at text
    exact ⟨r, old.symm, _, text⟩
  case shown => exact fun _ => text

/-- A beginning stays one when the text goes on. -/
theorem taken_append (carries : Carries s t o) (u : Text) :
    ∃ r, o.sink.text = s ++ r ∧ r <+: t ++ u := by
  obtain ⟨r, old, beginning⟩ := carries.taken
  exact ⟨r, old, beginning.trans (List.prefix_append _ _)⟩

theorem more (carries : Carries s t o) (failed : o.failed = true) (u : Text) :
    Carries s (t ++ u) o := by
  constructor
  case taken => exact carries.taken_append u
  case shown =>
    intro usable
    rw [failed] at usable
    cases usable

theorem fail (carries : Carries s t o) : Carries s t { o with failed := true } :=
  ⟨carries.taken, nofun⟩

theorem sink_prefix (carries : Carries s t o) : s <+: o.sink.text := by
  obtain ⟨r, old, -⟩ := carries.taken
  exact ⟨r, old.symm⟩

theorem prefix_take (carries : Carries s t o) (piece : Array UInt8) :
    s <+: (o.sink.take piece).text := by
  rw [Sink.text_take]
  exact carries.sink_prefix.trans (List.prefix_append _ _)

theorem flush (carries : Carries s t o) : Carries s t o.flush := by
  unfold Output.flush
  split
  · exact carries
  next active =>
    have usable : o.failed = false := by
      cases failed : o.failed with
      | true => rw [failed] at active; exact absurd rfl active
      | false => rfl
    split
    next sink offered =>
      have taken := Sink.offer?_eq_some offered
      subst taken
      apply of_shown
      · exact carries.shown usable
      · exact carries.prefix_take o.pending
    next => exact carries.fail

theorem beforeRead (carries : Carries s t o) : Carries s t o.beforeRead := by
  unfold Output.beforeRead
  split
  · exact carries.flush
  · exact carries

theorem join (carries : Carries s t o) (u : Text) :
    Carries s (t ++ u) { o with pending := o.pending ++ u } := by
  constructor
  case taken => exact carries.taken_append u
  case shown =>
    intro usable
    have shown := carries.shown usable
    rw [text_shown] at shown ⊢
    rw [append_text, Array.toList_append, ← List.append_assoc, shown, List.append_assoc]

theorem writes {o' : Output} (writes : Writes o t o') {u : Text} (carries : Carries s u o) :
    Carries s (u ++ t) o' := by
  induction writes generalizing u with
  | refused failed t => exact carries.more failed t
  | kept usable t => exact carries.join t
  | @whole o t sink usable nothing offered =>
    have taken := Sink.offerWhole?_eq_some offered
    subst taken
    have shown := carries.shown usable
    unfold Output.shown at shown
    rw [nothing, Sink.take_empty] at shown
    apply of_shown
    · unfold Output.shown
      rw [nothing, Sink.take_empty, Sink.text_take, shown, List.append_assoc]
    · exact carries.prefix_take t.toArray
  | @wholeRefused o t usable refused =>
    exact (carries.fail.more rfl t)
  | @piece o o' part rest usable further ih =>
    rw [← List.append_assoc]
    exact ih (carries.join part).flush

theorem write (carries : Carries s t o) (u : Text) : Carries s (t ++ u) (o.write u) :=
  carries.writes (writes_write o u)

end Carries

end Output

end CellScript
