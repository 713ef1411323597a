/-! Text is a list of bytes. Source positions count bytes, programs may hold bytes that are no
UTF-8, and every message quotes such text unchanged. -/
namespace CellScript

/-- A byte string; nothing is assumed about its encoding. -/
abbrev Text := List UInt8

/-- The UTF-8 bytes of a literal of this library. -/
def utf8 (s : String) : Text := s.toUTF8.data.toList

def byte (c : Char) : UInt8 := c.toNat.toUInt8

namespace Text

def isDigit (b : UInt8) : Bool := byte '0' ≤ b && b ≤ byte '9'

/-- Letters and the underscore: what may start a name. -/
def isNameStart (b : UInt8) : Bool :=
  (byte 'a' ≤ b && b ≤ byte 'z') || (byte 'A' ≤ b && b ≤ byte 'Z') || b == byte '_'

def isNamePart (b : UInt8) : Bool := isNameStart b || isDigit b

def digit (n : Nat) : UInt8 := (48 + n % 10).toUInt8

/-- The decimal digits of a natural number, most significant first. -/
def ofNat (n : Nat) : Text :=
  if n < 10 then [digit n] else ofNat (n / 10) ++ [digit n]
termination_by n
decreasing_by omega

/-- Decimal text; only negative numbers carry a sign. -/
def ofInt : Int → Text
  | .ofNat n => ofNat n
  | .negSucc n => byte '-' :: ofNat (n + 1)

/-- The value of a run of decimal digits, most significant first. -/
def digitsValue (ds : Text) : Nat :=
  ds.foldl (fun n b => n * 10 + (b.toNat - 48)) 0

/-- The items of a list with `sep` between neighbours. -/
def join (sep : Text) (ts : List Text) : Text := (ts.intersperse sep).flatten

/-- What stands before and after the first occurrence of `b`. -/
def cut? (b : UInt8) : Text → Option (Text × Text)
  | [] => none
  | c :: t => if c = b then some ([], t) else (cut? b t).map fun (l, r) => (c :: l, r)

/-- The pieces between the occurrences of `b`; there is always at least one. -/
def splitOn (b : UInt8) : Text → List Text
  | [] => [[]]
  | c :: t =>
    match splitOn b t with
    | piece :: rest => if c = b then [] :: piece :: rest else (c :: piece) :: rest
    | [] => [[c]]

/-- Order of byte strings: the first differing byte decides, a proper beginning comes first. -/
def le : Text → Text → Bool
  | [], _ => true
  | _ :: _, [] => false
  | a :: s, b :: t => if a < b then true else if b < a then false else le s t

/-- Every occurrence of `old` replaced by `new`, scanning from the left. -/
def replaceByte (old new : UInt8) (t : Text) : Text :=
  t.map fun b => if b = old then new else b

end Text

end CellScript
