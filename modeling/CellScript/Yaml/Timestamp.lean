import CellScript.Text

/-! Dates, alone or with a time of day, as YAML scalars write them. A date has four digits for its
year and one or two for its month and day. A time of day follows after a letter and then tells its
zone, or after spaces and then tells none. -/
namespace CellScript.Yaml.Timestamp

/-- One or two digits with a number up to `top`, and what follows them. -/
def number? (top : Nat) (t : Text) : Option (Nat × Text) :=
  let ds := (t.take 2).takeWhile Text.isDigit
  let n := Text.digitsValue ds
  if ds.isEmpty || top < n then none else some (n, t.drop ds.length)

/-- What follows a byte that must come first. -/
def after? (b : UInt8) : Text → Option Text
  | c :: t => if b == c then some t else none
  | [] => none

def isLeap (year : Nat) : Bool := year % 4 == 0 && (year % 100 != 0 || year % 400 == 0)

def daysIn (year month : Nat) : Nat :=
  if month == 2 then if isLeap year then 29 else 28
  else if [4, 6, 9, 11].contains month then 30 else 31

def afterDate? (t : Text) : Option Text := do
  let year := t.takeWhile Text.isDigit
  if year.length != 4 then none
  let t ← after? (byte '-') (t.drop 4)
  let (month, t) ← number? 12 t
  let (day, t) ← number? 31 (← after? (byte '-') t)
  if month == 0 || day == 0 || daysIn (Text.digitsValue year) month < day then none else some t

/-- What follows a time of day; the seconds may have a fraction. -/
def afterClock? (t : Text) : Option Text := do
  let (_, t) ← number? 23 t
  let (_, t) ← number? 59 (← after? (byte ':') t)
  let (_, t) ← number? 59 (← after? (byte ':') t)
  match t with
  | b :: d :: r =>
    if (b == byte '.' || b == byte ',') && Text.isDigit d then some (r.dropWhile Text.isDigit)
    else some t
  | t => some t

/-- Whether a text is a zone: a letter, or a sign with hours and minutes of two digits each. -/
def isZone : Text → Bool
  | [b] => b == byte 'Z'
  | [sign, a, b, colon, c, d] =>
    (sign == byte '+' || sign == byte '-') && colon == byte ':' && [a, b, c, d].all Text.isDigit &&
      Text.digitsValue [a, b] ≤ 24 && Text.digitsValue [c, d] ≤ 60
  | _ => false

/-- Whether a text is a date, alone or with a time of day. -/
def isTimestamp (t : Text) : Bool :=
  match afterDate? t with
  | none => false
  | some [] => true
  | some (b :: t) =>
    if b == byte 'T' || b == byte 't' then (afterClock? t).any isZone
    else b == 32 && (afterClock? (t.dropWhile (· == 32))).any (·.isEmpty)

end CellScript.Yaml.Timestamp
