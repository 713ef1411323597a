import CellScript.Token.Lexer
import Mathlib.Data.List.TakeWhile

/-! Single tokens and the gaps between them. A token is the start of the text, it is read the same on its own,
and it never goes on over a blank. Then the steps of the lexer, one for each way that it can go on. -/
namespace CellScript.Lexer

variable {b e : UInt8} {t u : Text} {l : Lexeme} {p : Position} {afterDot : Bool}

section Lexemes

/-! A token is the start of the text, and never goes on over a blank. -/

variable {quote : UInt8} {s rest : Text}

theorem isSpace_cases (space : isSpace e) : e = 32 ∨ e = 9 ∨ e = 13 ∨ e = 10 := by
  simpa [isSpace, or_assoc] using space

/-- A blank belongs to no token but a string. -/
theorem isSpace_ends (space : isSpace e) :
    Text.isDigit e = false ∧ Text.isNamePart e = false ∧ ∀ m : Mark, e ∉ Vocabulary.spelling m := by
  obtain rfl | rfl | rfl | rfl := isSpace_cases space
  all_goals exact ⟨by decide, by decide, fun m => by cases m <;> decide⟩

theorem takeWhile_followed {among : UInt8 → Bool} (ends : among e = false) :
    (t ++ e :: u).takeWhile among = t.takeWhile among := by
  induction t with
  | nil => simp [ends]
  | cons b t ih => simp [List.takeWhile_cons, ih]

theorem digits_followed (space : isSpace e) :
    (t ++ e :: u).takeWhile Text.isDigit = t.takeWhile Text.isDigit :=
  takeWhile_followed (isSpace_ends space).1

theorem digits_cons_followed (space : isSpace e) :
    (b :: (t ++ e :: u)).takeWhile Text.isDigit = (b :: t).takeWhile Text.isDigit :=
  digits_followed space (t := b :: t)

theorem stringBody_eq_some (found : stringBody quote t = some (s, rest)) : t = s ++ quote :: rest := by
  fun_induction stringBody quote t generalizing s with
  | case4 _ _ _ ih | case6 _ _ _ _ _ ih =>
    obtain ⟨⟨s, rest⟩, body, same⟩ := Option.map_eq_some_iff.mp found
    cases same
    simp [← ih body]
  | _ => simp_all

theorem stringBody_followed (found : stringBody quote t = some (s, rest)) :
    stringBody quote (t ++ u) = some (s, rest ++ u) := by
  fun_induction stringBody quote t generalizing s with
  | case2 t =>
    cases found
    unfold stringBody
    simp
  | case4 _ _ _ ih | case6 _ _ _ _ _ ih =>
    obtain ⟨⟨s, rest⟩, body, same⟩ := Option.map_eq_some_iff.mp found
    cases same
    unfold stringBody
    simp_all
  | _ => cases found

theorem fraction_followed (space : isSpace e) : fraction (t ++ e :: u) = fraction t := by
  match t with
  | [] | [_] =>
    obtain rfl | rfl | rfl | rfl := isSpace_cases space <;> cases u <;> simp [fraction, Text.isDigit, byte]
  | point :: digit :: t => simp [fraction, digits_cons_followed space]

theorem exponent_followed (space : isSpace e) : exponent (t ++ e :: u) = exponent t := by
  match t with
  | [] | [_] =>
    obtain rfl | rfl | rfl | rfl := isSpace_cases space <;> cases u <;> simp [exponent, Text.isDigit, byte]
  | mark :: digit :: t => simp [exponent, digits_followed space, digits_cons_followed space]

theorem fraction_begins : fraction t <+: t := by
  unfold fraction
  split
  · split
    · apply (List.prefix_cons_inj _).mpr
      exact List.takeWhile_prefix _
    · exact List.nil_prefix
  · exact List.nil_prefix

theorem exponent_begins : exponent t <+: t := by
  unfold exponent
  split
  next mark digit t =>
    have digits : t.takeWhile Text.isDigit <+: t := List.takeWhile_prefix _
    split
    · split
      · apply (List.prefix_cons_inj _).mpr
        exact List.takeWhile_prefix _
      · split
        · split
          · exact List.nil_prefix
          · simpa using digits
        · exact List.nil_prefix
    · exact List.nil_prefix
  · exact List.nil_prefix

theorem drop_followed {s : Text} (start : s <+: t) : (t ++ u).drop s.length = t.drop s.length ++ u :=
  List.drop_append_of_le_length start.length_le

theorem number_followed (space : isSpace e) : number afterDot (t ++ e :: u) = number afterDot t := by
  have whole : t.takeWhile Text.isDigit <+: t := List.takeWhile_prefix _
  simp [number, digits_followed space, drop_followed whole, fraction_followed space,
    drop_followed fraction_begins, exponent_followed space]

theorem begins_append {r s t : Text} (first : r <+: t) (next : s <+: t.drop r.length) : r ++ s <+: t := by
  obtain ⟨rest, rfl⟩ := first
  simpa using next

theorem number_begins : (number afterDot t).2 <+: t := by
  have whole : t.takeWhile Text.isDigit <+: t := List.takeWhile_prefix _
  unfold number
  simp only
  split
  · exact whole
  · exact begins_append (begins_append whole fraction_begins) (by
      rw [List.length_append, ← List.drop_drop]
      exact exponent_begins)

theorem not_ofText?_space (space : isSpace e) : (Vocabulary.ofText? [b, e] : Option Mark) = none := by
  cases found : (Vocabulary.ofText? [b, e] : Option Mark) with
  | none => rfl
  | some m =>
    have ends : e ∈ Vocabulary.spelling m := by simp [Vocabulary.spelling_ofText? found]
    exact absurd ends ((isSpace_ends space).2.2 m)

theorem mark?_followed (space : isSpace e) : mark? b (t ++ e :: u) = mark? b t := by
  cases t <;> simp [mark?, not_ofText?_space space]

theorem mark?_begins {m : Mark} (found : mark? b t = some m) : Vocabulary.spelling m <+: b :: t := by
  unfold mark? at found
  split at found
  · obtain found | ⟨-, found⟩ := Option.or_eq_some_iff.mp found
    · simp [Vocabulary.spelling_ofText? found]
    · simp [Vocabulary.spelling_ofText? found]
  · simp [Vocabulary.spelling_ofText? found]

/-- The four ways to form a token that starts with the byte `b`. -/
inductive Forms (afterDot : Bool) (b : UInt8) (t : Text) : Lexeme → Prop
  | string {s rest : Text} (quotes : b = byte '"' ∨ b = 39) (body : stringBody b t = some (s, rest)) :
    Forms afterDot b t ⟨.string, s, b :: s ++ [b]⟩
  | number (plain : ¬(b = byte '"' ∨ b = 39)) (digit : Text.isDigit b) :
    Forms afterDot b t (.plain (number afterDot (b :: t)).1 (number afterDot (b :: t)).2)
  | word {w : Text} (plain : ¬(b = byte '"' ∨ b = 39)) (letter : ¬Text.isDigit b) (starts : Text.isNameStart b)
    (whole : (b :: t).takeWhile Text.isNamePart = w) :
    Forms afterDot b t (.plain ((Vocabulary.ofText? w).elim .name .keyword) w)
  | mark {m : Mark} (plain : ¬(b = byte '"' ∨ b = 39)) (letter : ¬Text.isDigit b) (other : ¬Text.isNameStart b)
    (found : mark? b t = some m) :
    Forms afterDot b t (.plain (.mark m) (Vocabulary.spelling m))

theorem lexeme_eq_ok : lexeme afterDot b t = .ok l ↔ Forms afterDot b t l := by
  constructor
  · intro found
    unfold lexeme at found
    split at found
    next quotes =>
      split at found
      next body =>
        cases found
        exact .string (by simpa using quotes) body
      · cases found
    next plain =>
      rw [Bool.or_eq_true, decide_eq_true_iff, decide_eq_true_iff] at plain
      split at found
      next digit =>
        rw [← Except.ok.inj found]
        exact .number plain digit
      next letter =>
        split at found
        next starts =>
          have forms : Forms afterDot b t (.plain _ _) := .word plain letter starts rfl
          simp only at found
          split at found
          all_goals
            next known =>
              cases found
              rwa [known] at forms
        next other =>
          split at found
          next m marks =>
            cases found
            exact .mark plain letter other marks
          · cases found
  · intro forms
    cases forms with
    | string quotes body => simp [lexeme, quotes, body]
    | number plain digit => simp [lexeme, plain, digit]
    | @word w plain letter starts whole =>
      simp only [lexeme, Bool.or_eq_true, decide_eq_true_iff, if_neg plain, if_neg letter, if_pos starts, whole]
      cases (Vocabulary.ofText? w : Option Keyword) <;> rfl
    | mark plain letter other found => simp [lexeme, plain, letter, other, found]

theorem lexeme_begins (found : lexeme afterDot b t = .ok l) : l.source <+: b :: t := by
  cases lexeme_eq_ok.mp found with
  | string quotes body => simp [stringBody_eq_some body]
  | number plain digit => exact number_begins
  | word plain letter starts whole =>
    subst whole
    exact List.takeWhile_prefix _
  | mark plain letter other marks => exact mark?_begins marks

theorem lexeme_followed (space : isSpace e) (found : lexeme afterDot b t = .ok l) :
    lexeme afterDot b (t ++ e :: u) = .ok l := by
  rw [lexeme_eq_ok] at found ⊢
  cases found with
  | string quotes body => exact .string quotes (stringBody_followed body)
  | number plain digit =>
    have same : number afterDot (b :: t ++ e :: u) = number afterDot (b :: t) := number_followed space
    rw [← same]
    exact .number plain digit
  | word plain letter starts whole =>
    exact .word plain letter starts ((takeWhile_followed (isSpace_ends space).2.1).trans whole)
  | mark plain letter other marks => exact .mark plain letter other ((mark?_followed space).trans marks)

/-- A token covers its first byte. -/
theorem exists_lexeme (found : lexeme afterDot b t = .ok l) : ∃ s, l.source = b :: s := by
  have begins : l.source <+: b :: t := lexeme_begins found
  suffices some : l.source ≠ [] by
    obtain ⟨c, s, same⟩ := List.exists_cons_of_ne_nil some
    rw [same] at begins ⊢
    exact ⟨s, by rw [(List.cons_prefix_cons.mp begins).1]⟩
  cases lexeme_eq_ok.mp found with
  | string quotes body => exact List.cons_ne_nil _ _
  | number plain digit => cases afterDot <;> simp [Lexeme.plain, number, digit]
  | word plain letter starts whole =>
    subst whole
    simp [Lexeme.plain, Text.isNamePart, starts]
  | @mark m plain letter other marks => cases m <;> decide

/-! The text of a token alone gives that token. -/

theorem stringBody_alone (found : stringBody quote t = some (s, rest)) :
    stringBody quote (s ++ [quote]) = some (s, []) := by
  fun_induction stringBody quote t generalizing s with
  | case2 t =>
    cases found
    simp [stringBody]
  | case4 _ _ _ ih | case6 _ _ _ _ _ ih =>
    obtain ⟨⟨s, rest⟩, body, same⟩ := Option.map_eq_some_iff.mp found
    cases same
    rw [List.cons_append, stringBody.eq_def]
    simp_all
  | _ => cases found

theorem takeWhile_alone (among : UInt8 → Bool) (ends : u.takeWhile among = []) :
    (t.takeWhile among ++ u).takeWhile among = t.takeWhile among := by
  rw [List.takeWhile_append_of_pos fun _ => List.mem_takeWhile_imp, ends, List.append_nil]

theorem exponent_cases : exponent t = [] ∨ ∃ e r, (e = byte 'e' ∨ e = byte 'E') ∧ exponent t = e :: r := by
  unfold exponent
  split
  next e d t =>
    split
    next mark =>
      have mark : e = byte 'e' ∨ e = byte 'E' := by simpa using mark
      split
      · exact .inr ⟨e, _, mark, rfl⟩
      · split
        · split
          · exact .inl rfl
          · exact .inr ⟨e, _, mark, rfl⟩
        · exact .inl rfl
    · exact .inl rfl
  · exact .inl rfl

theorem exponent_alone : exponent (exponent t) = exponent t := by
  match t with
  | [] | [_] => rfl
  | e :: d :: t =>
    have digits : ((d :: t).takeWhile Text.isDigit).takeWhile Text.isDigit = _ := List.takeWhile_idem
    have signed : (t.takeWhile Text.isDigit).takeWhile Text.isDigit = _ := List.takeWhile_idem
    by_cases mark : e = byte 'e' || e = byte 'E'
    · by_cases digit : Text.isDigit d
      · simp_all [exponent]
      · by_cases sign : d = byte '+' || d = byte '-'
        · cases more : t.takeWhile Text.isDigit with
          | nil =>
            have none : exponent (e :: d :: t) = [] := by simp [exponent, mark, digit, sign, more]
            rw [none]
            rfl
          | cons c ds => simp_all [exponent]
        · simp_all [exponent]
    · simp_all [exponent]

theorem exponent_no_digits : (exponent t).takeWhile Text.isDigit = [] := by
  obtain none | ⟨e, r, rfl | rfl, some⟩ := exponent_cases (t := t)
  · rw [none]
    rfl
  all_goals
    rw [some]
    rfl

theorem fraction_exponent : fraction (exponent t) = [] := by
  obtain none | ⟨e, r, rfl | rfl, some⟩ := exponent_cases (t := t)
  · rw [none]
    rfl
  all_goals
    rw [some]
    cases r <;> rfl

theorem fraction_alone : fraction (fraction t ++ exponent u) = fraction t := by
  match t with
  | [] | [_] => exact fraction_exponent
  | p :: d :: t =>
    by_cases point : p = byte '.' && Text.isDigit d
    · have digits := takeWhile_alone (t := d :: t) Text.isDigit (exponent_no_digits (t := u))
      simp_all [fraction]
    · simp only [fraction, if_neg point]
      exact fraction_exponent

theorem fraction_no_digits : (fraction t ++ exponent u).takeWhile Text.isDigit = [] := by
  unfold fraction
  split
  next p d t =>
    split
    next point =>
      obtain ⟨rfl, -⟩ : p = byte '.' ∧ Text.isDigit d := by simpa using point
      rfl
    · exact exponent_no_digits
  · exact exponent_no_digits

theorem number_alone : number afterDot (number afterDot t).2 = number afterDot t := by
  cases afterDot with
  | true => simp [number, List.takeWhile_idem]
  | false =>
    simp [number, takeWhile_alone Text.isDigit fraction_no_digits, fraction_alone, exponent_alone]

theorem mark?_alone {m : Mark} (spelt : Vocabulary.spelling m = b :: s) : mark? b s = some m := by
  cases m <;> cases spelt <;> rfl

theorem lexeme_alone (found : lexeme afterDot b t = .ok l) :
    ∃ s, l.source = b :: s ∧ lexeme afterDot b s = .ok l := by
  obtain ⟨s, source⟩ := exists_lexeme found
  refine ⟨s, source, ?_⟩
  rw [lexeme_eq_ok] at found ⊢
  cases found with
  | string quotes body =>
    cases source
    exact .string quotes (stringBody_alone body)
  | number plain digit =>
    have same : number afterDot (b :: s) = number afterDot (b :: t) := by
      rw [← source]
      exact number_alone
    rw [← same]
    exact .number plain digit
  | word plain letter starts whole =>
    refine .word plain letter starts ?_
    rw [← source]
    subst whole
    exact List.takeWhile_idem
  | mark plain letter other marks => exact .mark plain letter other (mark?_alone source)

end Lexemes

section Gaps

variable {comment : Bool} {gap rest : Text}

theorem splitGap_parts (found : splitGap comment t = (gap, rest)) : t = gap ++ rest := by
  fun_induction splitGap comment t generalizing gap with
  | case1 | case5 =>
    cases found
    rfl
  | case2 _ _ _ _ _ ih | case3 _ _ _ _ _ _ _ _ ih | case4 _ _ _ _ _ _ _ _ _ ih =>
    cases found
    simp [← ih ‹_›]

/-- A gap goes on to a byte that is no blank and starts no comment. -/
theorem splitGap_stops (found : splitGap comment t = (gap, b :: rest)) :
    ¬isSpace b ∧ ¬(b == byte '/' && rest.head? == some (byte '/')) := by
  fun_induction splitGap comment t generalizing gap with
  | case1 => cases found
  | case2 _ _ _ _ split ih | case3 _ _ _ _ _ _ _ split ih | case4 _ _ _ _ _ _ _ _ split ih =>
    cases found
    exact ih split
  | case5 comment c t code word plain =>
    cases found
    exact ⟨word, plain⟩

theorem slash_followed : ((t ++ 10 :: u).head? == some (byte '/')) = (t.head? == some (byte '/')) := by
  cases t with
  | nil => rfl
  | cons => rfl

/-- A line end closes a comment, and is blank after anything else. -/
theorem splitGap_followed :
    splitGap comment (t ++ 10 :: u) =
      match splitGap comment t with
      | (gap, []) => (gap ++ 10 :: (splitGap false u).1, (splitGap false u).2)
      | (gap, b :: rest) => (gap, b :: (rest ++ 10 :: u)) := by
  fun_induction splitGap comment t with
  | case1 comment => cases comment <;> rfl
  | case2 b t gap rest found ih =>
    rw [List.cons_append, splitGap, ih, found]
    cases rest <;> rfl
  | case3 comment b t code space gap rest found ih =>
    rw [List.cons_append, splitGap, if_neg code, if_pos space, ih, found]
    cases rest <;> rfl
  | case4 comment b t code word slashes gap rest found ih =>
    rw [List.cons_append, splitGap, slash_followed, if_neg code, if_neg word, if_pos slashes, ih, found]
    cases rest <;> rfl
  | case5 comment b t code word plain =>
    rw [List.cons_append, splitGap, slash_followed, if_neg code, if_neg word, if_neg plain]

@[simp] theorem splitGap_space (space : isSpace b) :
    splitGap false (b :: t) = (b :: (splitGap false t).1, (splitGap false t).2) := by
  simp [splitGap, space]

end Gaps

section Reading

variable {gap rest : Text} {n : Nat} {ts : Tokens}

theorem readFrom_blank (found : splitGap false t = (gap, [])) :
    readFrom n p afterDot t = .ok ⟨[], p.after gap⟩ := by
  cases n <;> simp [readFrom, found]

theorem readFrom_nil : readFrom n p afterDot [] = .ok ⟨[], p⟩ := by
  have none : splitGap false [] = ([], []) := rfl
  rw [readFrom_blank none, Position.after_nil]

theorem readFrom_lexeme (found : splitGap false t = (gap, b :: rest)) (first : lexeme afterDot b rest = .ok l) :
    readFrom (n + 1) p afterDot t =
      (readFrom n ((p.after gap).after l.source) (l.kind == .mark .dot) ((b :: rest).drop l.source.length)).map
        fun ts => ⟨⟨l.kind, l.value, p.after gap, (p.after gap).after l.source⟩ :: ts.tokens, ts.stop⟩ := by
  rw [readFrom, found]
  simp only [first]
  split <;> simp_all [Except.map]

theorem readFrom_eq_ok (read : readFrom n p afterDot t = .ok ts) :
    (∃ gap, splitGap false t = (gap, []) ∧ ts = ⟨[], p.after gap⟩) ∨
      ∃ gap b rest l m us, splitGap false t = (gap, b :: rest) ∧ lexeme afterDot b rest = .ok l ∧ n = m + 1 ∧
        readFrom m ((p.after gap).after l.source) (l.kind == .mark .dot) ((b :: rest).drop l.source.length) = .ok us ∧
          ts = ⟨⟨l.kind, l.value, p.after gap, (p.after gap).after l.source⟩ :: us.tokens, us.stop⟩ := by
  generalize found : splitGap false t = parts at *
  obtain ⟨gap, rest⟩ := parts
  match n, rest with
  | n, [] =>
    rw [readFrom_blank found] at read
    cases read
    exact .inl ⟨gap, rfl, rfl⟩
  | 0, b :: rest =>
    rw [readFrom, found] at read
    cases read
  | m + 1, b :: rest =>
    cases first : lexeme afterDot b rest with
    | error cause =>
      rw [readFrom, found] at read
      simp only [first] at read
      cases read
    | ok l =>
      rw [readFrom_lexeme found first] at read
      cases later : readFrom m ((p.after gap).after l.source) (l.kind == .mark .dot)
          ((b :: rest).drop l.source.length) with
      | error e =>
        rw [later] at read
        cases read
      | ok us =>
        rw [later] at read
        cases read
        exact .inr ⟨gap, b, rest, l, m, us, rfl, first, rfl, later, rfl⟩

/-- How the tokens of a text come about: a last gap, or a gap and a token with those of what is left. -/
inductive Lexes : Position → Bool → Text → Tokens → Prop
  | last {p : Position} {afterDot : Bool} {t gap : Text} (found : splitGap false t = (gap, [])) :
    Lexes p afterDot t ⟨[], p.after gap⟩
  | token {p : Position} {afterDot : Bool} {t gap rest tail : Text} {b : UInt8} {l : Lexeme} {ts : Tokens}
    (found : splitGap false t = (gap, b :: rest)) (first : lexeme afterDot b rest = .ok l)
    (whole : t = gap ++ l.source ++ tail)
    (more : Lexes ((p.after gap).after l.source) (l.kind == .mark .dot) tail ts) :
    Lexes p afterDot t ⟨⟨l.kind, l.value, p.after gap, (p.after gap).after l.source⟩ :: ts.tokens, ts.stop⟩

theorem readFrom_lexes (read : readFrom n p afterDot t = .ok ts) : Lexes p afterDot t ts := by
  induction n generalizing p afterDot t ts with
  | zero =>
    obtain ⟨gap, found, rfl⟩ | ⟨gap, b, rest, l, m, us, -, -, impossible, -⟩ := readFrom_eq_ok read
    · exact .last found
    · cases impossible
  | succ n ih =>
    obtain ⟨gap, found, rfl⟩ | ⟨gap, b, rest, l, m, us, found, first, same, later, rfl⟩ := readFrom_eq_ok read
    · exact .last found
    · cases same
      obtain ⟨tail, whole⟩ : l.source <+: b :: rest := lexeme_begins first
      rw [← whole, List.drop_left] at later
      exact .token found first (by rw [splitGap_parts found, ← whole, List.append_assoc]) (ih later)

/-- Enough steps fail only where no token can be formed. -/
theorem readFrom_eq_error {e : Error} (failed : readFrom n p afterDot t = .error e) (enough : t.length ≤ n) :
    ∃ gap b rest, splitGap false t = (gap, b :: rest) ∧
      ((∃ cause, lexeme afterDot b rest = .error cause ∧ e = ⟨p.after gap, cause⟩) ∨
        ∃ l m, lexeme afterDot b rest = .ok l ∧ n = m + 1 ∧
          readFrom m ((p.after gap).after l.source) (l.kind == .mark .dot) ((b :: rest).drop l.source.length) =
            .error e) := by
  generalize found : splitGap false t = parts
  obtain ⟨gap, rest⟩ := parts
  match n, rest with
  | n, [] =>
    rw [readFrom_blank found] at failed
    cases failed
  | 0, b :: rest => simp [splitGap_parts found] at enough
  | m + 1, b :: rest =>
    refine ⟨gap, b, rest, rfl, ?_⟩
    cases first : lexeme afterDot b rest with
    | error cause =>
      rw [readFrom, found] at failed
      simp only [first] at failed
      cases failed
      exact .inl ⟨cause, rfl, rfl⟩
    | ok l =>
      rw [readFrom_lexeme found first] at failed
      cases later : readFrom m ((p.after gap).after l.source) (l.kind == .mark .dot)
          ((b :: rest).drop l.source.length) with
      | error e =>
        rw [later] at failed
        cases failed
        exact .inr ⟨l, m, rfl, rfl, later⟩
      | ok us =>
        rw [later] at failed
        cases failed

theorem readFrom_skip (gap : Text) (same : splitGap false t = (gap ++ (splitGap false u).1, (splitGap false u).2)) :
    readFrom n p afterDot t = readFrom n (p.after gap) afterDot u := by
  unfold readFrom
  rw [same]
  simp only [Position.after_append]

theorem readFrom_space (space : isSpace b) : readFrom n p afterDot (b :: t) = readFrom n (p.next b) afterDot t :=
  readFrom_skip [b] (splitGap_space space)

end Reading

end CellScript.Lexer
