import CellScript.Real.Binary
import CellScript.Text.Case

/-! Texts that denote reals: decimal and hexadecimal numbers with optional digit separators, and
the names of the infinities and of the undefined value. A number too large for a double denotes
none; one too small denotes zero. -/
namespace CellScript.Real

def lowerByte (b : UInt8) : UInt8 := if byte 'A' ≤ b && b ≤ byte 'Z' then b + 32 else b

def hexDigit? (b : UInt8) : Option Nat :=
  let b := lowerByte b
  if Text.isDigit b then some (b.toNat - 48)
  else if byte 'a' ≤ b && b ≤ byte 'f' then some (b.toNat - 87)
  else none

/-- Whether every underscore stands between two digits, where a base mark counts as a digit.
`seen` classifies the byte before: a digit, an underscore or something else. -/
def separatorsBetweenDigits (hex : Bool) (seen : Char) : Text → Bool
  | [] => seen != '_'
  | b :: t =>
    if Text.isDigit b || (hex && (hexDigit? b).isSome) then separatorsBetweenDigits hex '0' t
    else if b = byte '_' then seen == '0' && separatorsBetweenDigits hex '_' t
    else seen != '_' && separatorsBetweenDigits hex '!' t

/-- Digits and underscores of a base at the start of a text. -/
def digitRun (hex : Bool) (t : Text) : Text :=
  t.takeWhile fun b => b == byte '_' || Text.isDigit b || (hex && (hexDigit? b).isSome)

/-- The digit values of a run, separators dropped. -/
def digitValues (run : Text) : List Nat := run.filterMap hexDigit?

/-- A number text taken apart: `digits · base ^ -fraction · scale ^ exponent`. -/
structure Parts where
  hex : Bool
  digits : List Nat
  fraction : Nat
  exponent : Int

/-- The exponent after its mark: a sign and digits up to the end of the text. Exponents beyond
any double are cut at a bound. -/
def exponent? (t : Text) : Option Int :=
  let (negative, t) := match t with
    | s :: r => if s = byte '-' then (true, r) else if s = byte '+' then (false, r) else (false, t)
    | [] => (false, t)
  match t with
  | b :: _ =>
    if Text.isDigit b && (digitRun false t).length = t.length then
      let n : Nat := (digitValues t).foldl (fun n d => if n < 10000 then n * 10 + d else n) 0
      some (if negative then -(n : Int) else n)
    else none
  | [] => none

def parts? (hex : Bool) (t : Text) : Option Parts :=
  let whole := digitRun hex t
  let rest := t.drop whole.length
  let (frac, rest) := match rest with
    | b :: r => if b = byte '.' then (digitRun hex r, r.drop (digitRun hex r).length) else ([], rest)
    | [] => ([], rest)
  let digits := digitValues (whole ++ frac)
  if digits.isEmpty then none
  else match rest with
  | [] => if hex then none else some ⟨hex, digits, (digitValues frac).length, 0⟩
  | b :: r =>
    if lowerByte b = (if hex then byte 'p' else byte 'e') then
      (exponent? r).map fun e => ⟨hex, digits, (digitValues frac).length, e⟩
    else none

/-- The double nearest to a number text. Sizes far outside the range are decided from the place
of the first digit alone. -/
def Parts.value? (negative : Bool) (p : Parts) : Option Float :=
  let ds := p.digits.dropWhile (· == 0)
  let base := if p.hex then 16 else 10
  let n := ds.foldl (fun n d => n * base + d) 0
  let e : Int := if p.hex then p.exponent - 4 * p.fraction else p.exponent - p.fraction
  let scale := if p.hex then 2 else 10
  let size : Int := (if p.hex then 4 * ds.length else ds.length) + e
  if n = 0 then nearest negative 0 1
  else if 2000 < size then none
  else if size < -2000 then nearest negative 0 1
  else if 0 ≤ e then nearest negative (n * Nat.pow scale e.toNat) 1
  else nearest negative n (Nat.pow scale (-e).toNat)

/-- The real that a whole text denotes. -/
def read? (t : Text) : Option Float :=
  let (signed, negative, body) := match t with
    | s :: r => if s = byte '-' then (true, true, r) else if s = byte '+' then (true, false, r)
      else (false, false, t)
    | [] => (false, false, t)
  let word := body.map lowerByte
  if word = utf8 "inf" || word = utf8 "infinity" then
    some (if negative then -(1.0 / 0.0) else 1.0 / 0.0)
  else if word = utf8 "nan" then if signed then none else some (0.0 / 0.0)
  else
    let hex := 2 < body.length && word.take 2 = utf8 "0x"
    let digits := if hex then body.drop 2 else body
    if separatorsBetweenDigits hex (if hex then '0' else '^') digits then
      (parts? hex digits).bind (·.value? negative)
    else none

/-- Whether a text that denotes no real is a number all the same, and so one out of range. -/
def isNumber (t : Text) : Bool :=
  let body := match t with
    | s :: r => if s = byte '-' || s = byte '+' then r else t
    | [] => t
  let hex := 2 < body.length && (body.map lowerByte).take 2 = utf8 "0x"
  let digits := if hex then body.drop 2 else body
  separatorsBetweenDigits hex (if hex then '0' else '^') digits && (parts? hex digits).isSome

end CellScript.Real
