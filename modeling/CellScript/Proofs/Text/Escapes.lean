import CellScript.Proofs.Lexing.Tiling
import CellScript.Render
import Mathlib.Algebra.Group.Nat.Even
import Mathlib.Data.List.DropRight

/-! Escape sequences in joined texts. A text whose last backslash begins no sequence may be continued by
anything: what the parts stand for is what the whole stands for. The literals of a source are such
texts, and so is what they are joined to. -/
namespace CellScript

namespace Text

/-- The backslashes at the end of the text make up pairs, so none of them waits for another byte. -/
def Paired (t : Text) : Prop := Even (t.rtakeWhile (· == 92)).length

instance (t : Text) : Decidable t.Paired := inferInstanceAs (Decidable (Even _))

/-- The bytes at the end that satisfy a condition are those of the second text, and if it has no other
ones, those of the first text as well. -/
theorem rtakeWhile_append (p : UInt8 → Bool) (s t : Text) :
    (s ++ t).rtakeWhile p = if t.all p then s.rtakeWhile p ++ t else t.rtakeWhile p := by
  induction t using List.reverseRecOn with
  | nil => simp
  | append_singleton t b ih =>
    rw [← List.append_assoc, List.rtakeWhile_concat, List.rtakeWhile_concat, ih, List.all_append]
    by_cases last : p b
    · by_cases all : t.all p
      · have whole : (t.all p && [b].all p) = true := by simp [all, last]
        rw [if_pos last, if_pos all, if_pos whole, List.append_assoc]
      · have part : ¬(t.all p && [b].all p) = true := fun whole => all (Bool.and_eq_true_iff.mp whole).1
        rw [if_pos last, if_neg all, if_neg part, if_pos last]
    · have part : ¬(t.all p && [b].all p) = true := by simp [last]
      rw [if_neg last, if_neg part, if_neg last]

/-- What stands before a text makes no difference to it, if it is itself in pairs. -/
theorem Paired.append_iff {s : Text} (first : s.Paired) (t : Text) : (s ++ t).Paired ↔ t.Paired := by
  unfold Paired at first ⊢
  rw [rtakeWhile_append]
  split
  next all =>
    rw [List.rtakeWhile_eq_self_iff.mpr (List.all_eq_true.mp all), List.length_append, Nat.even_add]
    exact iff_true_left first
  next => rfl

theorem Paired.append {s t : Text} (first : s.Paired) (second : t.Paired) : (s ++ t).Paired :=
  (first.append_iff t).mpr second

theorem paired_cons {b : UInt8} (plain : b ≠ 92) (t : Text) : Paired (b :: t) ↔ t.Paired := by
  have single : Paired [b] := by simp [Paired, List.rtakeWhile, plain]
  exact single.append_iff t

theorem paired_escape (c : UInt8) (t : Text) : Paired (92 :: c :: t) ↔ t.Paired := by
  have pair : Paired [92, c] := by
    unfold Paired List.rtakeWhile
    by_cases twice : c = 92
    · subst twice
      decide
    · simp [twice]
  exact pair.append_iff t

theorem not_paired_backslash : ¬Paired [92] := by decide

/-! ### Expansion -/

theorem expandEscapes_cons {b : UInt8} (plain : b ≠ 92) (t : Text) :
    expandEscapes (b :: t) = b :: expandEscapes t := by
  cases t with
  | nil => rfl
  | cons c t => rw [expandEscapes, if_neg plain]

/-- What a backslash and the byte behind it stand for. -/
def expandPair (c : UInt8) : Text :=
  match unescape? c with
  | some d => [d]
  | none => [92, c]

theorem expandEscapes_escape (c : UInt8) (t : Text) :
    expandEscapes (92 :: c :: t) = expandPair c ++ expandEscapes t := by
  rw [expandEscapes, if_pos rfl, expandPair]
  cases unescape? c <;> rfl

/-- Texts from their sequences on: nothing, a last backslash, a backslash with a byte, another byte. -/
theorem escapes_induction {P : Text → Prop} (nil : P []) (backslash : P [92])
    (escape : ∀ c t, P t → P (92 :: c :: t)) (plain : ∀ b t, b ≠ 92 → P t → P (b :: t)) (t : Text) :
    P t := by
  induction t using expandEscapes.induct with
  | case1 => exact nil
  | case2 b =>
    by_cases last : b = 92
    · rw [last]
      exact backslash
    · exact plain b [] last nil
  | case3 c t d found ih | case4 c t none ih => exact escape c t ih
  | case5 b c t other ih => exact plain b (c :: t) other ih

/-- A text whose backslashes are in pairs is expanded on its own, whatever follows, and no other text is:
a byte that follows is taken by the last backslash. -/
theorem paired_iff_expandEscapes_append (s : Text) :
    s.Paired ↔ ∀ t, expandEscapes (s ++ t) = expandEscapes s ++ expandEscapes t := by
  constructor
  · intro paired t
    induction s using escapes_induction with
    | nil => rfl
    | backslash => exact absurd paired not_paired_backslash
    | escape c s ih =>
      have rest := ih ((paired_escape c s).mp paired)
      rw [List.cons_append, List.cons_append, expandEscapes_escape, expandEscapes_escape, rest,
        List.append_assoc]
    | plain b s other ih =>
      have rest := ih ((paired_cons other s).mp paired)
      rw [List.cons_append, expandEscapes_cons other, expandEscapes_cons other, rest, List.cons_append]
  · intro apart
    -- a following n would be taken for the end of a newline sequence
    have alone := apart [byte 'n']
    clear apart
    induction s using escapes_induction with
    | nil => decide
    | backslash => exact absurd alone (by decide)
    | escape c s ih =>
      rw [List.cons_append, List.cons_append, expandEscapes_escape, expandEscapes_escape,
        List.append_assoc, List.append_cancel_left_eq] at alone
      exact (paired_escape c s).mpr (ih alone)
    | plain b s other ih =>
      rw [List.cons_append, expandEscapes_cons other, expandEscapes_cons other, List.cons_append,
        List.cons.injEq] at alone
      exact (paired_cons other s).mpr (ih alone.2)

end Text

/-! ### String tokens -/

namespace Lexer

theorem stringBody_paired {quote : UInt8} {t s rest : Text}
    (found : stringBody quote t = some (s, rest)) : s.Paired := by
  fun_induction stringBody quote t generalizing s with
  | case2 t =>
    cases found
    decide
  | case4 c t _ ih =>
    obtain ⟨⟨s, rest⟩, body, same⟩ := Option.map_eq_some_iff.mp found
    cases same
    exact (Text.paired_escape c s).mpr (ih body)
  | case6 b t _ plain _ ih =>
    obtain ⟨⟨s, rest⟩, body, same⟩ := Option.map_eq_some_iff.mp found
    cases same
    exact (Text.paired_cons plain s).mpr (ih body)
  | _ => cases found

theorem number_kind_ne (afterDot : Bool) (t : Text) : (number afterDot t).1 ≠ .string := by
  unfold number
  split
  · exact nofun
  · dsimp only
    split <;> exact nofun

theorem lexeme_paired {afterDot : Bool} {b : UInt8} {t : Text} {l : Lexeme}
    (found : lexeme afterDot b t = .ok l) (string : l.kind = .string) : l.value.Paired := by
  cases lexeme_eq_ok.mp found with
  | string quotes body => exact stringBody_paired body
  | number plain digit => exact absurd string (number_kind_ne afterDot (b :: t))
  | @word w plain letter starts whole =>
    change (Vocabulary.ofText? w).elim Token.Kind.name .keyword = .string at string
    cases known : (Vocabulary.ofText? w : Option Keyword) with
    | none | some k =>
      rw [known] at string
      cases string
  | mark plain letter other marks => cases string

theorem Lexes.paired {p : Position} {afterDot : Bool} {t : Text} {ts : Tokens}
    (lexes : Lexes p afterDot t ts) : ∀ t ∈ ts.tokens, t.kind = .string → t.value.Paired := by
  induction lexes with
  | last found => exact List.forall_mem_nil _
  | token found first whole more ih => exact List.forall_mem_cons.mpr ⟨lexeme_paired first, ih⟩

/-- The lexer keeps a backslash and the byte behind it together. -/
theorem read_paired {source : Text} {ts : Tokens} (known : read source = .ok ts) :
    ∀ t ∈ ts.tokens, t.kind = .string → t.value.Paired :=
  (readFrom_lexes known).paired

end Lexer

end CellScript
