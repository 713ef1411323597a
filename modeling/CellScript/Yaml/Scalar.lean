import CellScript.Real.Reading
import CellScript.Yaml.Cursor

/-! The scalars of a YAML text: plain, in quotes, and in blocks of lines. Each reader gives the text
of a scalar and what follows it. -/
namespace CellScript.Yaml.Scalar

/-- White space inside a scalar. Without a line end it stands for itself. Of one line end a blank
remains, of several all but the first; a separator of lines or paragraphs stays what it is. -/
def fold (gap : List Char) : List Char :=
  match splitLines gap with
  | (blanks, []) => blanks
  | (_, (first, _) :: more) =>
    if first == ['\n'] then if more.isEmpty then [' '] else more.flatMap (·.1)
    else first ++ more.flatMap (·.1)

def endsLine (gap : List Char) : Bool := gap.getLast?.any isBreak

def crosses (gap : List Char) : Bool := gap.any isBreak

def misindented (indent : Nat) (gap : List Char) : Bool :=
  (splitLines gap).2.any fun line => (line.2.take indent).contains '\t'

def singleQuote : Char := Char.ofNat 39

def openBrace : Char := Char.ofNat 123

def closeBrace : Char := Char.ofNat 125

/-- Characters that end a plain scalar inside a flow. -/
def endsFlowWord (c : Char) : Bool :=
  c == ',' || c == '?' || c == '[' || c == ']' || c == openBrace || c == closeBrace

/-- A plain scalar up to the next gap, a colon before a gap or the end of its flow entry. -/
def plainWord (flow : Bool) : List Char → List Char
  | [] => []
  | c :: t =>
    if isGap c || (c == ':' && atGap t) || (flow && endsFlowWord c) then []
    else c :: plainWord flow t

/-- A plain scalar, what follows it, and whether it leaves off behind a line end. Outside a flow
its further lines are indented by at least `indent`. -/
def plain (flow : Bool) (indent : Nat) : (steps : Nat) → (gap t : List Char) →
    Option (List Char × List Char × Bool)
  | 0, _, _ => none
  | n + 1, gap, t =>
    if (endsLine gap && isDocumentMark t) || t.head? == some '#' then some ([], t, crosses gap)
    else
      let word := plainWord flow t
      let rest := t.drop word.length
      let space := rest.takeWhile isGap
      let text := if word.isEmpty then [] else fold gap ++ word
      if space.isEmpty then some (text, rest, word.isEmpty && crosses gap)
      else if misindented indent space then none
      else
        let rest := rest.drop space.length
        let column := ((splitLines space).2.getLast?.map (·.2.length)).getD indent
        if !flow && column < indent then some (text, rest, true)
        else (plain flow indent n space rest).map fun (more, rest, crossed) =>
          (text ++ more, rest, crossed)

def letterEscapes : List (Char × Nat) :=
  [('0', 0), ('a', 7), ('b', 8), ('t', 9), ('\t', 9), ('n', 10), ('v', 11), ('f', 12), ('r', 13),
   ('e', 27), (' ', 32), ('"', 34), (singleQuote, 39), ('\\', 92), ('N', 0x85),
   ('_', 0xA0), ('L', 0x2028), ('P', 0x2029)]

/-- The number of hexadecimal digits after a letter. -/
def codeLength? (c : Char) : Option Nat :=
  if c == 'x' then some 2 else if c == 'u' then some 4 else if c == 'U' then some 8 else none

def hexDigit? (c : Char) : Option Nat :=
  if c.toNat < 128 then Real.hexDigit? (byte c) else none

/-- What an escape with the letter `c` stands for, and what follows it. -/
def escape? (c : Char) (t : List Char) : Option (Char × List Char) :=
  match codeLength? c with
  | some width => do
    let ds ← (t.take width).mapM hexDigit?
    let code := ds.foldl (fun n d => n * 16 + d) 0
    if ds.length = width && Rune.isScalar code then some (Char.ofNat code, t.drop width) else none
  | none => (letterEscapes.find? fun e => e.1 == c).map fun e => (Char.ofNat e.2, t)

/-- White space from a place inside quotes on, and what follows it; no document may end there. The
white space after an escaped line end keeps its line ends and loses its blanks. -/
def quotedGap (escaped : Bool) (t : List Char) : Option (List Char × List Char) :=
  let gap := t.takeWhile isGap
  let rest := t.drop gap.length
  if (endsLine gap || (escaped && gap.isEmpty)) && isDocumentMark rest then none
  else some (if escaped then (splitLines gap).2.flatMap (·.1) else fold gap, rest)

/-- A scalar in single quotes, after the opening one: a quote inside it is written twice. -/
def singleQuoted : (steps : Nat) → List Char → Option (List Char × List Char)
  | 0, _ | _, [] => none
  | n + 1, c :: t =>
    if isGap c then do
      let (s, rest) ← quotedGap false (c :: t)
      (singleQuoted n rest).map fun (more, rest) => (s ++ more, rest)
    else if c == singleQuote then
      if t.head? == some singleQuote then
        (singleQuoted n t.tail).map fun (more, rest) => (singleQuote :: more, rest)
      else some ([], t)
    else (singleQuoted n t).map fun (more, rest) => (c :: more, rest)

/-- A scalar in double quotes, after the opening one. -/
def doubleQuoted : (steps : Nat) → List Char → Option (List Char × List Char)
  | 0, _ | _, [] => none
  | n + 1, c :: t =>
    if isGap c then do
      let (s, rest) ← quotedGap false (c :: t)
      (doubleQuoted n rest).map fun (more, rest) => (s ++ more, rest)
    else if c == '"' then some ([], t)
    else if c == '\\' then
      match breakLength t, t with
      | _, [] => none
      | 0, e :: t => do
        let (s, rest) ← escape? e t
        (doubleQuoted n rest).map fun (more, rest) => (s :: more, rest)
      | k, t => do
        let (s, rest) ← quotedGap true (t.drop k)
        (doubleQuoted n rest).map fun (more, rest) => (s ++ more, rest)
    else (doubleQuoted n t).map fun (more, rest) => (c :: more, rest)

/-- What becomes of the line ends after the last line of a block. -/
inductive Chomping where
  /-- One stays. -/
  | clip
  /-- None stays. -/
  | strip
  /-- All stay. -/
  | keep
deriving DecidableEq, Repr

structure BlockHeader where
  chomping : Chomping
  /-- The indentation beyond that of the parent, if the header tells it. -/
  increment : Option Nat

def chomping? (c : Char) : Option Chomping :=
  if c == '+' then some .keep else if c == '-' then some .strip else none

/-- The indentation that a digit tells; zero is none. -/
def increment? (c : Char) : Option Nat :=
  if c.isDigit then some (c.toNat - 48) else none

/-- The header of a block after its mark, and the line ends and lines after it: a sign and a digit
in any order, and a comment. -/
def blockHeader? (t : List Char) : Option (BlockHeader × List Char) := do
  let sign (t : List Char) : Option Chomping × List Char :=
    match t.head?.bind chomping? with
    | some s => (some s, t.tail)
    | none => (none, t)
  let digit (t : List Char) : Option Nat × List Char :=
    match t.head?.bind increment? with
    | some d => (some d, t.tail)
    | none => (none, t)
  let (chomping, t) := sign t
  let (increment, t) := digit t
  let (chomping, t) := if chomping.isNone && increment.isSome then sign t else (chomping, t)
  if increment == some 0 then none
  let t := t.dropWhile isBlank
  let t := if t.head? == some '#' then t.dropWhile fun c => !isBreak c else t
  if t.head?.all isBreak then
    some (⟨chomping.getD .clip, increment⟩, t.drop (breakLength t))
  else none

/-- Empty lines from the start of a line on: the line ends that they stand for, the widest
indentation met, and what follows with its indentation. Spaces beyond `indent`, if it is known,
belong to a line. -/
def emptyLines (indent : Option Nat) : (steps widest : Nat) → List Char →
    Option (List Char × Nat × Nat × List Char)
  | 0, _, _ => none
  | n + 1, widest, t =>
    let spaces := (t.takeWhile (· == ' ')).length
    let column := match indent with
      | some i => min i spaces
      | none => spaces
    let rest := t.drop column
    let widest := max widest column
    if rest.head? == some '\t' && indent.all (column < ·) then none
    else match rest with
    | c :: _ =>
      if isBreak c then
        (emptyLines indent n widest (rest.drop (breakLength rest))).map fun (breaks, found) =>
          (breakText c ++ breaks, found)
      else some ([], widest, column, rest)
    | [] => some ([], widest, column, [])

/-- The lines of a block. `joint` is the line end before them and `breaks` those of the empty lines
after it; `indented` tells whether the line before starts with a blank. Folding joins lines that do
not. At the end come the last line end and the empty lines after it. -/
def blockLines (folded : Bool) (indent : Nat) : (steps : Nat) → (joint breaks : List Char) →
    (indented : Bool) → (column : Nat) → List Char →
    Option (List Char × (List Char × List Char) × List Char)
  | 0, _, _, _, _, _ => none
  | n + 1, joint, breaks, indented, column, t =>
    if column = indent && !t.isEmpty then do
      let blank := t.head?.any isBlank
      let between := if folded && !indented && !blank && joint == ['\n']
        then if breaks.isEmpty then [' '] else [] else joint
      let line := t.takeWhile fun c => !isBreak c
      let rest := t.drop line.length
      let joint := (rest.head?.map breakText).getD []
      let (next, _, column, rest) ←
        emptyLines (some indent) (rest.length + 1) 0 (rest.drop (breakLength rest))
      let (more, tail, rest) ← blockLines folded indent n joint next blank column rest
      return (between ++ breaks ++ line ++ more, tail, rest)
    else some ([], (joint, breaks), t)

/-- A block of lines after its mark, inside a parent with some indentation. -/
def block (folded : Bool) (parent : Option Nat) (t : List Char) :
    Option (List Char × List Char) := do
  let (header, t) ← blockHeader? t
  let steps := t.length + 1
  let known := header.increment.map (parent.getD 0 + ·)
  let (breaks, widest, column, rest) ← emptyLines known steps 0 t
  let least := max 1 ((parent.map (· + 1)).getD 0)
  let indent := known.getD (max widest least)
  let (text, (last, more), rest) ← blockLines folded indent steps [] breaks false column rest
  let tail := match header.chomping with
    | .strip => []
    | .clip => last
    | .keep => last ++ more
  return (text ++ tail, rest)

end CellScript.Yaml.Scalar
