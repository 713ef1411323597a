import CellScript.Config
import CellScript.Text.Units

/-! Configurations written in TOML: lines with a key and a value, which is a string, a boolean, an
integer or a list of these. A file with tables has no place for them. -/
namespace CellScript.Config.Toml

inductive Node where
  | string (t : Text)
  | boolean (b : Bool)
  | integer (n : Int)
  | list (items : List Node)

def isSpace (b : UInt8) : Bool := b == 32 || b == 9

def isBreak (b : UInt8) : Bool := b == 10 || b == 13

def skipSpaces (t : Text) : Text := t.dropWhile isSpace

def skipGap (t : Text) : Text := t.dropWhile fun b => isSpace b || isBreak b

/-- Bytes that comments and literal strings may hold: no control characters but the tab. -/
def isPrintable (b : UInt8) : Bool := b == 9 || 32 ≤ b

/-- Skips a comment, if there is one. It runs to the end of its line. -/
def skipComment (t : Text) : Text :=
  if t.head? == some (byte '#') then t.dropWhile isPrintable else t

def atLineEnd (t : Text) : Bool := t.head?.all isBreak

def isBareKey (b : UInt8) : Bool := Text.isNamePart b || b == byte '-'

def letterEscapes : List (Char × UInt8) :=
  [('b', 8), ('t', 9), ('n', 10), ('f', 12), ('r', 13), ('"', 34), ('\\', 92)]

/-- The code point that some hexadecimal digits write, and what follows them. -/
def codePoint? (width : Nat) (t : Text) : Option (Text × Text) := do
  let ds ← (t.take width).mapM Real.hexDigit?
  let code := ds.foldl (fun n d => n * 16 + d) 0
  if ds.length = width && Rune.isScalar code then some (Rune.encode code, t.drop width) else none

def escape? (b : UInt8) (t : Text) : Option (Text × Text) :=
  if b == byte 'u' then codePoint? 4 t
  else if b == byte 'U' then codePoint? 8 t
  else (letterEscapes.find? fun e => byte e.1 == b).map fun e => ([e.2], t)

/-- The characters of a basic string, and what follows them from a quote or a line end on. -/
def basicText : (steps : Nat) → Text → Option (Text × Text)
  | 0, _ => none
  | _, [] => some ([], [])
  | n + 1, b :: t =>
    if b == 92 then
      match t with
      | [] => none
      | c :: r =>
        if isBreak c then some ([], b :: t)
        else do
          let (s, r) ← escape? c r
          (basicText n r).map fun (more, r) => (s ++ more, r)
    else if b == byte '"' || b < 32 then some ([], b :: t)
    else (basicText n t).map fun (more, r) => (b :: more, r)

def basic (t : Text) : Option (Text × Text) := do
  let (s, rest) ← basicText (t.length + 1) t
  if rest.head? == some (byte '"') then some (s, rest.drop 1) else none

def literal (t : Text) : Option (Text × Text) :=
  let s := t.takeWhile fun b => isPrintable b && b != 39
  let rest := t.drop s.length
  if rest.head? == some 39 then some (s, rest.drop 1) else none

/-- The body of a long basic string after its opening quotes. A backslash at the end of a line
takes away the white space that follows. -/
def longBasic : (steps : Nat) → Text → Option (Text × Text)
  | 0, _ => none
  | n + 1, t => do
    let (s, rest) ← basicText (t.length + 1) t
    match rest with
    | [] => none
    | b :: r =>
      if (utf8 "\"\"\"").isPrefixOf rest then some (s, r.drop 2)
      else if b == 92 then (longBasic n (skipGap r)).map fun (more, r) => (s ++ more, r)
      else if isBreak b then (longBasic n r).map fun (more, r) => (s ++ b :: more, r)
      else none

def longLiteral : (steps : Nat) → Text → Option (Text × Text)
  | 0, _ | _, [] => none
  | n + 1, b :: t =>
    if [39, 39, 39].isPrefixOf (b :: t) then some ([], t.drop 2)
    else if isPrintable b || isBreak b then
      (longLiteral n t).map fun (more, r) => (b :: more, r)
    else none

/-- A string of any of the four kinds. Line ends at the start of a long one do not belong to it. -/
def string? (t : Text) : Option (Text × Text) :=
  match t with
  | [] => none
  | b :: r =>
    if (utf8 "\"\"\"").isPrefixOf t then longBasic t.length ((t.drop 3).dropWhile isBreak)
    else if [39, 39, 39].isPrefixOf t then longLiteral t.length ((t.drop 3).dropWhile isBreak)
    else if b == byte '"' then basic r
    else if b == 39 then literal r
    else none

/-- The digits after the first one; an underscore may stand before each. -/
def moreDigits : Text → Text × Text
  | b :: t =>
    if Text.isDigit b then
      let (ds, rest) := moreDigits t
      (b :: ds, rest)
    else match t with
    | c :: r =>
      if b == byte '_' && Text.isDigit c then
        let (ds, rest) := moreDigits r
        (c :: ds, rest)
      else ([], b :: t)
    | [] => ([], [b])
  | [] => ([], [])

/-- An integer: a sign, and digits without leading zeros. -/
def integer? (t : Text) : Option (Int × Text) :=
  let (negative, t) := match t with
    | b :: r => if b == byte '-' then (true, r) else if b == byte '+' then (false, r) else (false, t)
    | [] => (false, t)
  match t with
  | [] => none
  | b :: r =>
    if !Text.isDigit b then none
    else
      let (ds, rest) := if b == byte '0' then ([], r) else moreDigits r
      let n := Text.digitsValue (b :: ds)
      let n : Int := if negative then -(n : Int) else n
      if Int64.minValue.toInt ≤ n && n ≤ Int64.maxValue.toInt then some (n, rest) else none

/-- A gap with at most one comment in it. -/
def skipCommentedGap (t : Text) : Text := skipGap (skipComment (skipGap t))

mutual

/-- A value and what follows it. -/
def value : (steps : Nat) → Text → Option (Node × Text)
  | 0, _ => none
  | n + 1, t =>
    match t with
    | [] => none
    | b :: r =>
      if b == byte '"' || b == 39 then (string? t).map fun (s, r) => (.string s, r)
      else if b == byte '[' then
        let r := skipGap r
        if r.head? == some (byte ']') then some (.list [], r.drop 1)
        else (items n r).map fun (xs, r) => (.list xs, r)
      else if (utf8 "true").isPrefixOf t then some (.boolean true, t.drop 4)
      else if (utf8 "false").isPrefixOf t then some (.boolean false, t.drop 5)
      else (integer? t).map fun (k, r) => (.integer k, r)

/-- Items up to the closing bracket, at least one. A comment may stand on either side of a comma
between items; a comma after the last item has one only behind it. -/
def items : (steps : Nat) → Text → Option (List Node × Text)
  | 0, _ => none
  | n + 1, t => do
    let (x, rest) ← value n t
    let next := skipCommentedGap rest
    let more := if next.head? == some (byte ',') then items n (skipCommentedGap (next.drop 1)) else none
    match more with
    | some (xs, rest) => some (x :: xs, rest)
    | none =>
      let rest := skipGap rest
      let rest := if rest.head? == some (byte ',') then rest.drop 1 else rest
      let rest := skipCommentedGap rest
      if rest.head? == some (byte ']') then some ([x], rest.drop 1) else none

end

/-- A key and what follows it. -/
def key? (t : Text) : Option (Text × Text) :=
  match t with
  | b :: r =>
    if b == byte '"' then (basic r).filter fun (key, _) => !key.isEmpty
    else
      let key := t.takeWhile isBareKey
      if key.isEmpty then none else some (key, t.drop key.length)
  | [] => none

/-- The entries of a text. -/
def entries : (steps : Nat) → Text → Option (List (Text × Node))
  | 0, _ => none
  | n + 1, t =>
    let t := skipComment (skipGap t)
    match t with
    | [] => some []
    | b :: _ =>
      if isBreak b then entries n t
      else do
        let (key, r) ← key? t
        let r := skipSpaces r
        if r.head? != some (byte '=') then none
        let (v, r) ← value (t.length + 1) (skipSpaces (r.drop 1))
        let r := skipComment (skipSpaces r)
        if !atLineEnd r then none
        return (key, v) :: (← entries n r)

def texts? : List Node → Option (List Text)
  | [] => some []
  | .string t :: xs => (texts? xs).map (t :: ·)
  | _ :: _ => none

def reading : Draft.Reading Node where
  text
    | .string t => some (some t)
    | _ => none
  bool
    | .boolean b => some (some b)
    | _ => none
  int
    | .integer n => some (some n)
    | _ => none
  texts
    | .list xs => (texts? xs).map some
    | _ => none

/-- The draft that a configuration text describes. Bytes that are no UTF-8 are read as replacement
characters. -/
def draft? (t : Text) : Option Draft := do
  let t := t.runes.flatMap fun r => Rune.encode r.code
  Draft.ofEntries reading (← entries (t.length + 1) t)

end CellScript.Config.Toml
