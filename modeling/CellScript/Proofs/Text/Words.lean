import CellScript.Input
import CellScript.Proofs.Text.Utf8

/-! The words of a text are what stands between its blanks. They are found piece by piece, and before the
whole text is there: a blank that has been found stays where it is, whatever bytes follow. -/
namespace CellScript

namespace Rune

variable {b : UInt8} {t u : Text}

/-- A byte is stray, or it starts a code point together with the bytes after it that continue it,
whatever follows these. -/
theorem first_cases (b : UInt8) (t : Text) :
    first b t = (.stray b, 0) ∨ ∃ n taken rest, t = taken ++ rest ∧ (∀ c ∈ taken, isContinuation c) ∧
      ∀ u, first b (taken ++ u) = (.point n, taken.length) := by
  unfold first
  dsimp only
  split
  next ascii => exact .inr ⟨b.toNat, [], t, rfl, nofun, fun u => rfl⟩
  next large =>
  split
  next two =>
    split
    next c rest =>
      split
      next shape =>
        simp only [Bool.and_eq_true] at shape
        exact .inr ⟨_, [c], rest, rfl, by simp [shape], fun u => by simp [shape]; rfl⟩
      next => exact .inl rfl
    next => exact .inl rfl
  next three =>
  split
  next four =>
    split
    next c d rest =>
      split
      next shape =>
        simp only [Bool.and_eq_true] at shape
        exact .inr ⟨_, [c, d], rest, rfl, by simp [shape], fun u => by simp [shape]; rfl⟩
      next => exact .inl rfl
    next => exact .inl rfl
  next four =>
    split
    next c d e rest =>
      split
      next shape =>
        simp only [Bool.and_eq_true] at shape
        exact .inr ⟨_, [c, d, e], rest, rfl, by simp [shape], fun u => by simp [shape]; rfl⟩
      next => exact .inl rfl
    next => exact .inl rfl

/-- The bytes after the first one of a rune continue it. -/
theorem continuation_of_first {c : UInt8} (member : c ∈ t.take (first b t).2) : isContinuation c := by
  obtain stray | ⟨n, taken, rest, rfl, all, found⟩ := first_cases b t
  · rw [stray] at member
    cases member
  · rw [found rest, List.take_left] at member
    exact all c member

theorem first_le (b : UInt8) (t : Text) : (first b t).2 ≤ t.length := by
  obtain stray | ⟨n, taken, rest, rfl, -, found⟩ := first_cases b t
  · rw [stray]
    exact Nat.zero_le _
  · rw [found rest, List.length_append]
    exact Nat.le_add_right _ _

/-- More bytes change the first rune only if all bytes after its first one could continue it. -/
theorem first_append (b : UInt8) (t u : Text) :
    first b (t ++ u) = first b t ∨ first b t = (.stray b, 0) ∧ ∀ c ∈ t, isContinuation c := by
  obtain stray | ⟨n, taken, rest, rfl, -, found⟩ := first_cases b t
  · obtain stray' | ⟨n, taken, rest, whole, all, found⟩ := first_cases b (t ++ u)
    · exact .inl (stray'.trans stray.symm)
    · obtain ⟨more, same, -⟩ | ⟨more, same, -⟩ := List.append_eq_append_iff.mp whole
      · exact .inr ⟨stray, fun c member => all c (same ▸ List.mem_append_left more member)⟩
      · rw [same, found] at stray
        cases stray
  · rw [List.append_assoc, found, found]
    exact .inl rfl

end Rune

namespace Text

variable {b : UInt8} {t u : Text}

theorem trimStart_cons (b : UInt8) (t : Text) : trimStart (b :: t) =
    if isBlank (Rune.first b t).1.code then trimStart (t.drop (Rune.first b t).2) else b :: t := by
  rw [trimStart.eq_def]

theorem blankAfter?_cons (p : Nat) (b : UInt8) (t : Text) : blankAfter? p (b :: t) =
    if isBlank (Rune.first b t).1.code then some (p, (Rune.first b t).2 + 1)
    else blankAfter? (p + (Rune.first b t).2 + 1) (t.drop (Rune.first b t).2) := by
  rw [blankAfter?.eq_def]

theorem blankAfter?_nil (p : Nat) : blankAfter? p [] = none := by rw [blankAfter?.eq_def]

theorem isBlank_replacement : isBlank Rune.replacement = false := by decide

/-- A blank stays what it is. -/
theorem first_append_of_blank (blank : isBlank (Rune.first b t).1.code) (u : Text) :
    Rune.first b (t ++ u) = Rune.first b t := by
  obtain same | ⟨stray, -⟩ := Rune.first_append b t u
  · exact same
  · rw [stray] at blank
    cases isBlank_replacement.symm.trans blank

/-- A byte that can continue a rune starts none, so it is no blank. -/
theorem first_of_isContinuation (continuation : Rune.isContinuation b) :
    Rune.first b t = (.stray b, 0) := by
  obtain ⟨low, high⟩ := Rune.continuation_bounds continuation
  have large : ¬b < 0x80 := by rw [UInt8.lt_iff_toNat_lt]; exact Nat.not_lt.mpr low
  have two : b < 0xE0 := by rw [UInt8.lt_iff_toNat_lt]; exact Nat.lt_of_le_of_lt high (by decide)
  have early : ¬0xC2 ≤ b := by
    rw [UInt8.le_iff_toNat_le]
    exact Nat.not_le.mpr (Nat.lt_of_le_of_lt high (by decide))
  unfold Rune.first
  rw [if_neg large, if_pos two]
  cases t with
  | nil => rfl
  | cons c t => simp [early]

theorem blankAfter?_of_isContinuation (p : Nat) (all : ∀ c ∈ t, Rune.isContinuation c) :
    blankAfter? p t = none := by
  induction t generalizing p with
  | nil => exact blankAfter?_nil p
  | cons b t ih =>
    obtain ⟨first, rest⟩ := List.forall_mem_cons.mp all
    rw [blankAfter?_cons, first_of_isContinuation first]
    exact ih (p + 1) rest

/-- A blank that has been found is found whatever follows. -/
theorem blankAfter?_append {p : Nat} {r : Nat × Nat} (found : blankAfter? p t = some r) (u : Text) :
    blankAfter? p (t ++ u) = some r := by
  fun_induction blankAfter? p t with
  | case1 => cases found
  | case2 p b t n blank =>
    rw [List.cons_append, blankAfter?_cons, first_append_of_blank blank, if_pos blank]
    exact found
  | case3 p b t n more ih =>
    rw [List.cons_append, blankAfter?_cons]
    obtain same | ⟨stray, all⟩ := Rune.first_append b t u
    · rw [same, if_neg more, List.drop_append_of_le_length (Rune.first_le b t)]
      exact ih found
    · have none : blankAfter? (p + n + 1) (t.drop n) = none :=
        blankAfter?_of_isContinuation _ fun c member => all c (List.mem_of_mem_drop member)
      cases none.symm.trans found

/-- A line end is a blank that no bytes before it hide. -/
theorem exists_blankAfter (p : Nat) (ended : t.getLast? = some 10) : ∃ r, blankAfter? p t = some r := by
  fun_induction blankAfter? p t with
  | case1 => cases ended
  | case2 p b t n blank => exact ⟨_, rfl⟩
  | case3 p b t n more ih =>
    refine ih ?_
    cases t with
    | nil =>
      obtain rfl : b = 10 := Option.some.inj ended
      exact absurd (by decide) more
    | cons c t =>
      rw [List.getLast?_cons_cons] at ended
      obtain within | beyond := Nat.lt_or_ge n (c :: t).length
      · rwa [List.getLast?_drop, if_neg (Nat.not_le_of_lt within)]
      · -- the first rune has all bytes, and the last one does not continue it
        have member : 10 ∈ (c :: t).take n := by
          rw [List.take_of_length_le beyond]
          exact List.mem_of_getLast? ended
        exact absurd (Rune.continuation_of_first member) (by decide)

theorem trimStart_suffix (t : Text) : t.trimStart <:+ t := by
  fun_induction trimStart t with
  | case1 => exact List.suffix_rfl
  | case2 b t blank ih => exact ih.trans ((List.drop_suffix _ t).trans (List.suffix_cons b t))
  | case3 => exact List.suffix_rfl

theorem drop_trimStart (t : Text) : t.drop (t.length - t.trimStart.length) = t.trimStart :=
  (List.suffix_iff_eq_drop.mp t.trimStart_suffix).symm

/-- Leading blanks can be dropped before the rest of a text is there. -/
theorem trimStart_append (t u : Text) : (t.trimStart ++ u).trimStart = (t ++ u).trimStart := by
  fun_induction trimStart t with
  | case1 => rfl
  | case2 b t blank ih =>
    rw [ih, List.cons_append, trimStart_cons, first_append_of_blank blank, if_pos blank,
      List.drop_append_of_le_length (Rune.first_le b t)]
  | case3 => rfl

/-- What is left without leading blanks starts with something else. -/
theorem not_blank_of_trimStart (rest : t.trimStart = b :: u) : ¬isBlank (Rune.first b u).1.code := by
  fun_induction trimStart t with
  | case1 => cases rest
  | case2 b' t blank ih => exact ih rest
  | case3 b' t more =>
    cases rest
    exact more

theorem le_of_blankAfter {p : Nat} {r : Nat × Nat} (found : blankAfter? p t = some r) : p ≤ r.1 := by
  fun_induction blankAfter? p t with
  | case1 => cases found
  | case2 p b t n blank =>
    cases found
    exact Nat.le_refl p
  | case3 p b t n more ih =>
    have le := ih found
    omega

theorem blankAfter_le {p : Nat} {r : Nat × Nat} (found : blankAfter? p t = some r) :
    r.1 + r.2 ≤ p + t.length := by
  fun_induction blankAfter? p t with
  | case1 => cases found
  | case2 p b t n blank =>
    cases found
    have le := Rune.first_le b t
    simp only [List.length_cons]
    omega
  | case3 p b t n more ih =>
    have le := ih found
    have inside := Rune.first_le b t
    rw [List.length_drop] at le
    simp only [List.length_cons]
    omega

/-- The runes of a text with their bytes, in order. -/
def letters : Text → List (Rune × Text)
  | [] => []
  | b :: t => ((Rune.first b t).1, b :: t.take (Rune.first b t).2) :: letters (t.drop (Rune.first b t).2)
termination_by t => t.length
decreasing_by exact length_drop_lt ..

/-- What stands before, between and after the blanks of a text. -/
def pieces (t : Text) : List Text :=
  (t.letters.splitOnP fun x => isBlank x.1.code).map fun xs => xs.flatMap (·.2)

/-- The words of a text: its pieces between blanks that are not empty. -/
def words (t : Text) : List Text := t.pieces.filter (!·.isEmpty)

theorem pieces_ne_nil (t : Text) : pieces t ≠ [] :=
  fun none => List.splitOnP_ne_nil _ t.letters (List.map_eq_nil_iff.mp none)

theorem pieces_nil : pieces [] = [[]] := by
  unfold pieces
  rw [letters.eq_def]
  rfl

theorem words_nil : words [] = [] := by
  unfold words
  rw [pieces_nil]
  rfl

theorem pieces_cons (b : UInt8) (t : Text) : pieces (b :: t) =
    if isBlank (Rune.first b t).1.code then [] :: pieces (t.drop (Rune.first b t).2)
    else (pieces (t.drop (Rune.first b t).2)).modifyHead (b :: t.take (Rune.first b t).2 ++ ·) := by
  unfold pieces
  rw [letters.eq_def]
  dsimp only
  rw [List.splitOnP_cons_eq_if_modifyHead]
  split
  · rfl
  · cases (letters (t.drop (Rune.first b t).2)).splitOnP fun x => isBlank x.1.code <;> rfl

/-- Before the first blank stands the first piece. -/
theorem pieces_of_blankAfter {p : Nat} {r : Nat × Nat} (found : blankAfter? p t = some r) :
    pieces t = t.take (r.1 - p) :: pieces (t.drop (r.1 - p + r.2)) := by
  fun_induction blankAfter? p t with
  | case1 => cases found
  | case2 p b t n blank =>
    cases found
    rw [pieces_cons, if_pos blank, Nat.sub_self, Nat.zero_add]
    rfl
  | case3 p b t n more ih =>
    obtain ⟨k, length⟩ := Nat.exists_eq_add_of_le (le_of_blankAfter found)
    have rest : r.1 - (p + n + 1) = k := by omega
    have whole : r.1 - p = n + k + 1 := by omega
    rw [pieces_cons, if_neg more, ih found, rest, whole, List.drop_drop, List.take_succ_cons, List.take_add]
    have behind : n + k + 1 + r.2 = n + (k + r.2) + 1 := by omega
    rw [behind]
    rfl

theorem words_of_blankAfter {r : Nat × Nat} (found : blankAfter? 0 t = some r) (some : 0 < r.1) :
    words t = t.take r.1 :: words (t.drop (r.1 + r.2)) := by
  obtain ⟨k, length⟩ := Nat.exists_eq_add_one.mpr some
  cases t with
  | nil =>
    rw [blankAfter?_nil] at found
    cases found
  | cons b t =>
    unfold words
    rw [pieces_of_blankAfter found, Nat.sub_zero, length]
    exact List.filter_cons_of_pos rfl

/-- A line end adds a blank and hides nothing before it. -/
theorem first_newline (b : UInt8) (t : Text) : Rune.first b (t ++ [10]) = Rune.first b t := by
  obtain stray | ⟨n, taken, rest, whole, all, found⟩ := Rune.first_cases b (t ++ [10])
  · obtain same | ⟨stray', -⟩ := Rune.first_append b t [10]
    · exact same
    · exact stray.trans stray'.symm
  · obtain ⟨more, same, split⟩ | ⟨more, same, -⟩ := List.append_eq_append_iff.mp whole
    · cases more with
      | nil =>
        have alone := found []
        rw [List.append_nil] at same alone
        rw [whole, found, ← same, alone]
      | cons c more =>
        obtain ⟨rfl, -⟩ := List.cons.inj split
        exact absurd (all 10 (same ▸ List.mem_append_right t List.mem_cons_self)) (by decide)
    · rw [whole, same, found, found]

theorem pieces_newline (t : Text) : pieces (t ++ [10]) = pieces t ++ [[]] := by
  fun_induction letters t with
  | case1 => rw [List.nil_append, pieces_cons, if_pos (by decide), List.drop_nil, pieces_nil]; rfl
  | case2 b t ih =>
    have inside := Rune.first_le b t
    rw [List.cons_append, pieces_cons, pieces_cons, first_newline, List.drop_append_of_le_length inside,
      List.take_append_of_le_length inside, ih]
    split
    · rfl
    · obtain ⟨piece, more, some⟩ :=
        List.exists_cons_of_ne_nil (pieces_ne_nil (t.drop (Rune.first b t).2))
      rw [some]
      rfl

/-- The end of a line adds no word. -/
theorem words_newline (t : Text) : words (t ++ [10]) = words t := by
  unfold words
  rw [pieces_newline, List.filter_append]
  exact List.append_nil _

theorem words_trimStart (t : Text) : words t.trimStart = words t := by
  fun_induction trimStart t with
  | case1 => rfl
  | case2 b t blank ih =>
    unfold words at ih ⊢
    rw [ih, pieces_cons, if_pos blank]
    rfl
  | case3 => rfl

/-! ### Words of a text of which only the beginning is there -/

/-- Without its leading blanks the beginning has the same words to come. -/
theorem words_trimStart_append (t u : Text) : words (t.trimStart ++ u) = words (t ++ u) := by
  rw [← words_trimStart, trimStart_append, words_trimStart]

/-- A word that a blank follows is a word of the whole text. -/
theorem words_append {r : Nat × Nat} (found : t.trimStart.blankAfter? 0 = some r) (u : Text) :
    words (t ++ u) = t.trimStart.take r.1 :: words (t.trimStart.drop (r.1 + r.2) ++ u) := by
  have some : 0 < r.1 := by
    cases rest : t.trimStart with
    | nil =>
      rw [rest, blankAfter?_nil] at found
      cases found
    | cons b t' =>
      rw [rest, blankAfter?_cons, if_neg (not_blank_of_trimStart rest)] at found
      have le := le_of_blankAfter found
      omega
  have within := blankAfter_le found
  rw [← words_trimStart_append, words_of_blankAfter (blankAfter?_append found u) some,
    List.take_append_of_le_length (by omega), List.drop_append_of_le_length (by omega)]

/-- Where a line end comes last, no word is left without a blank behind it. -/
theorem trimStart_eq_nil (ended : t = [] ∨ t.getLast? = some 10) (none : t.trimStart.blankAfter? 0 = none) :
    t.trimStart = [] := by
  cases rest : t.trimStart with
  | nil => rfl
  | cons b t' =>
    obtain ⟨blanks, whole⟩ := t.trimStart_suffix
    have last : t.trimStart.getLast? = some 10 := by
      obtain rfl | ended := ended
      · rw [trimStart.eq_def] at rest
        cases rest
      · rwa [← whole, rest, List.getLast?_append, List.getLast?_cons, Option.some_or,
          ← List.getLast?_cons, ← rest] at ended
    obtain ⟨r, found⟩ := exists_blankAfter 0 last
    cases none.symm.trans found

end Text

end CellScript
