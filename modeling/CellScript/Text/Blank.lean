import CellScript.Text.Rune

/-! White space: what separates input words and what trimming removes. -/
namespace CellScript.Text

/-- The code points of Unicode's white space property. -/
def isBlank (code : Nat) : Bool :=
  (9 ≤ code && code ≤ 13) || code == 0x20 || code == 0x85 || code == 0xA0 || code == 0x1680 ||
    (0x2000 ≤ code && code ≤ 0x200A) || code == 0x2028 || code == 0x2029 || code == 0x202F ||
    code == 0x205F || code == 0x3000

def trimStart : Text → Text
  | [] => []
  | b :: t =>
    if isBlank (Rune.first b t).1.code then trimStart (t.drop (Rune.first b t).2) else b :: t
termination_by t => t.length
decreasing_by exact length_drop_lt ..

def allBlank (t : Text) : Bool := t.trimStart.isEmpty

/-- The text up to its last rune that is not blank. -/
def trimEnd : Text → Text
  | [] => []
  | b :: t =>
    if allBlank (b :: t) then []
    else
      let n := (Rune.first b t).2
      b :: t.take n ++ trimEnd (t.drop n)
termination_by t => t.length
decreasing_by exact length_drop_lt ..

def trim (t : Text) : Text := trimEnd (trimStart t)

/-- The number of bytes before the first blank and the width of that blank; `passed` bytes lie
behind. -/
def blankAfter? (passed : Nat) : Text → Option (Nat × Nat)
  | [] => none
  | b :: t =>
    let n := (Rune.first b t).2
    if isBlank (Rune.first b t).1.code then some (passed, n + 1)
    else blankAfter? (passed + n + 1) (t.drop n)
termination_by t => t.length
decreasing_by exact length_drop_lt ..

end CellScript.Text
