import CellScript.Real.Reading
import CellScript.Text.Base64
import CellScript.Yaml.Timestamp

/-! What the scalars of a YAML document mean. A plain scalar may be a number, a truth value or
nothing, by the way it is written; a tag can tell otherwise. -/
namespace CellScript.Yaml

inductive Meaning where
  | null
  | bool (b : Bool)
  | int (n : Int)
  | real (x : Float)
  | text (t : Text)

namespace Meaning

def nullWords : List Text := [[], utf8 "~", utf8 "null", utf8 "Null", utf8 "NULL"]

def trueWords : List Text := [utf8 "true", utf8 "True", utf8 "TRUE"]

def falseWords : List Text := [utf8 "false", utf8 "False", utf8 "FALSE"]

def infinityWords : List Text := [utf8 ".inf", utf8 ".Inf", utf8 ".INF"]

def undefinedWords : List Text := [utf8 ".nan", utf8 ".NaN", utf8 ".NAN"]

def splitSign (t : Text) : Text × Text :=
  match t with
  | b :: r => if b == byte '-' || b == byte '+' then ([b], r) else ([], t)
  | [] => ([], [])

/-- The number that some digits of a base write; there must be one. -/
def digits? (base : Nat) (t : Text) : Option Nat := do
  let ds ← t.mapM Real.hexDigit?
  if ds.isEmpty || ds.any (base ≤ ·) then none
  else some (ds.foldl (fun n d => n * base + d) 0)

def withSign (sign : Text) (n : Nat) : Int := if sign = utf8 "-" then -(n : Int) else n

/-- The base that the marks at the start of an unsigned number tell, and its digits. A zero before
other digits tells the base eight. -/
def splitBase (t : Text) : Nat × Text :=
  match t with
  | b :: c :: r =>
    if b != byte '0' then (10, t)
    else if c == byte 'x' || c == byte 'X' then (16, r)
    else if c == byte 'b' || c == byte 'B' then (2, r)
    else if c == byte 'o' || c == byte 'O' then (8, r)
    else (8, c :: r)
  | _ => (10, t)

/-- An integer. The sign may also stand between the base mark and the digits. -/
def integer? (t : Text) : Option Int :=
  let (sign, body) := splitSign t
  let (base, digits) := splitBase body
  match digits? base digits with
  | some n => some (withSign sign n)
  | none =>
    let (inner, digits) := splitSign digits
    let marked := (utf8 "0b").isPrefixOf t || (utf8 "0o").isPrefixOf t
    if marked && !inner.isEmpty then (digits? base digits).map (withSign inner) else none

/-- Whether a text is a decimal number with an optional fraction and exponent. -/
def isDecimal (t : Text) : Bool :=
  let t := (splitSign t).2
  let whole := t.takeWhile Text.isDigit
  let t := t.drop whole.length
  let (fraction, t) := match t with
    | b :: r =>
      if b == byte '.' then (r.takeWhile Text.isDigit, r.dropWhile Text.isDigit) else ([], t)
    | [] => ([], t)
  (!whole.isEmpty || !fraction.isEmpty) && (match t with
    | [] => true
    | b :: r =>
      let r := (splitSign r).2
      (b == byte 'e' || b == byte 'E') && !r.isEmpty && r.all Text.isDigit)

/-- Whether an integer, written as in `t`, fits into 64 bits; only without a sign may it take the
upper half of the unsigned ones. -/
def fits (n : Int) (t : Text) : Bool :=
  Int64.minValue.toInt ≤ n && n ≤ Int64.maxValue.toInt ||
    (0 ≤ n && n.toNat < Nat.pow 2 64 && (splitSign t).1.isEmpty)

/-- A number that starts with a digit or a sign. Underscores in it do not count. -/
def number? (t : Text) : Option Meaning :=
  let t := t.filter (· != byte '_')
  let real := if isDecimal t then (Real.read? t).map Meaning.real else none
  match integer? t with
  | some n => if fits n t then some (.int n) else real
  | none => real

def ofPlain (t : Text) : Meaning :=
  if nullWords.contains t then .null
  else if trueWords.contains t then .bool true
  else if falseWords.contains t then .bool false
  else if undefinedWords.contains t then .real (0.0 / 0.0)
  else if infinityWords.contains t then .real (1.0 / 0.0)
  else match t with
  | b :: r =>
    if b == byte '.' then ((Real.read? t).map .real).getD (.text t)
    else if (b == byte '+' || b == byte '-') && infinityWords.contains r then
      .real (if b == byte '-' then -(1.0 / 0.0) else 1.0 / 0.0)
    else if Text.isDigit b || b == byte '+' || b == byte '-' then (number? t).getD (.text t)
    else .text t
  | [] => .text t

/-- The plain scalar that as a key takes entries over from another map. -/
def mergeWord : Text := utf8 "<<"

/-- A real for a scalar that is to be one; an integer of 64 bits with a sign will do. -/
def asReal? : Meaning → Option Meaning
  | real x => some (.real x)
  | int n => if n ≤ Int64.maxValue.toInt then (Real.read? (Text.ofInt n)).map .real else none
  | _ => none

/-- What a scalar means. A scalar in quotes without a tag is a text. The tags of the other kinds
must agree with the way the scalar is written; any further tag makes it a text. -/
def ofScalar? (tag : Text) (plain : Bool) (t : Text) : Option Meaning :=
  let only (keep : Meaning → Bool) : Option Meaning := some (ofPlain t) |>.filter keep
  if tag.isEmpty then some (if plain then ofPlain t else .text t)
  else if tag = utf8 "!!null" then only (· matches .null)
  else if tag = utf8 "!!bool" then only (· matches .bool _)
  else if tag = utf8 "!!int" then only (· matches .int _)
  else if tag = utf8 "!!float" then (ofPlain t).asReal?
  else if tag = utf8 "!!timestamp" then if Timestamp.isTimestamp t then some (.text t) else none
  else if tag = utf8 "!!binary" then (Base64.decode? t).map .text
  else some (.text t)

/-- Words that mean true or false only where a truth value is wanted. -/
def yesWords : List Text :=
  [utf8 "y", utf8 "Y", utf8 "yes", utf8 "Yes", utf8 "YES", utf8 "on", utf8 "On", utf8 "ON"]

def noWords : List Text :=
  [utf8 "n", utf8 "N", utf8 "no", utf8 "No", utf8 "NO", utf8 "off", utf8 "Off", utf8 "OFF"]

def bool? : Meaning → Option Bool
  | bool b => some b
  | text t => if yesWords.contains t then some true else if noWords.contains t then some false else none
  | _ => none

/-- The whole part of a real as a 64-bit integer; what lies below the range is its least one. -/
def wholePart? (x : Float) : Option Int :=
  let top := Float.ofScientific 9223372036854775808 false 0
  if x ≤ top then some (if x == top then Int64.minValue.toInt else x.toInt64.toInt) else none

/-- The 64-bit integer that is meant; a real counts with its whole part. -/
def int? : Meaning → Option Int
  | int n => if n ≤ Int64.maxValue.toInt then some n else none
  | real x => wholePart? x
  | _ => none

end Meaning

end CellScript.Yaml
