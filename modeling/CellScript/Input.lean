import CellScript.Text.Blank

/-! Input. Programs read words, which blanks separate. A reader takes bytes from its source into a
buffer that grows up to a limit; a word that does not fit ends the reading, and so does the end
of the source. -/
namespace CellScript

/-- What the line editor answers to a prompt. -/
inductive EditorLine where
  | text (t : Text)
  /-- The user gave up the line. -/
  | aborted
  | failed
deriving DecidableEq, Repr

/-- A line editor: the answers it will give, the prompts shown so far and the number of lines
entered. After the last answer its input has ended. -/
structure Editor where
  upcoming : List EditorLine
  prompts : List Text
  entered : Nat
deriving Repr

namespace Editor

/-- Shows a prompt; no answer means the end of input. -/
def prompt (e : Editor) (shown : Text) : Option EditorLine × Editor :=
  let prompts := e.prompts ++ [shown]
  match e.upcoming with
  | .text t :: rest => (some (.text t), ⟨rest, prompts, e.entered + 1⟩)
  | line :: rest => (some line, ⟨rest, prompts, e.entered⟩)
  | [] => (none, ⟨[], prompts, e.entered⟩)

end Editor

inductive ReadStop where
  | ended
  | tooLong
  | editorFailed
deriving DecidableEq, Repr

namespace ReadStop

/-- The cause as messages give it; the end of input is no failure. -/
def cause? : ReadStop → Option String
  | ended => none
  | tooLong => some "bufio.Scanner: token too long"
  | editorFailed => some "editor failed"

end ReadStop

inductive Source where
  | bytes (rest : Text)
  /-- Lines of an editor; `line` is what is left of the latest one. -/
  | editor (e : Editor) (line : Text)
deriving Repr

namespace Source

def inputPrompt : Text := utf8 "   input> "

/-- Takes up to `room` bytes, or tells why there are none. -/
def take (room : Nat) : Source → Except ReadStop Text × Source
  | bytes [] => (.error .ended, bytes [])
  | bytes rest => (.ok (rest.take room), bytes (rest.drop room))
  | editor e [] =>
    match e.prompt inputPrompt with
    | (some (.text t), e) =>
      let line := t ++ [10]
      (.ok (line.take room), editor e (line.drop room))
    | (some .failed, e) => (.error .editorFailed, editor e [])
    | (some .aborted, e) | (none, e) => (.error .ended, editor e [])
  | editor e line => (.ok (line.take room), editor e (line.drop room))

/-- The number of lines that a user has entered for this source. -/
def entered : Source → Nat
  | bytes _ => 0
  | editor e _ => e.entered

/-- An upper bound on how often something can still be taken. -/
def supply : Source → Nat
  | bytes rest => rest.length
  | editor e line =>
    e.upcoming.foldl (fun n l => match l with
      | .text t => n + t.length + 1
      | _ => n) line.length

end Source

/-- A reader of words: its source, and a buffer with the bytes taken but not yet used. -/
structure WordReader where
  source : Source
  /-- The size of the buffer. -/
  size : Nat
  /-- Where the held bytes start in the buffer. -/
  offset : Nat
  held : Text
  stop : Option ReadStop
deriving Repr

namespace WordReader

def ofSource (source : Source) : WordReader := ⟨source, 0, 0, [], none⟩

def initialSize : Nat := 4096

def maxSize : Nat := 65536

/-- What a search in the held bytes gives: a word with the number of bytes used, or only a number
of leading blanks to drop. -/
inductive Split where
  | word (w : Text) (used : Nat)
  | blanks (used : Nat)

/-- The first word of some bytes, if a blank or, at the end, nothing follows it. -/
def split (t : Text) (atEnd : Bool) : Split :=
  let rest := t.trimStart
  let skipped := t.length - rest.length
  match rest.blankAfter? 0 with
  | some (length, blank) => .word (rest.take length) (skipped + length + blank)
  | none => if atEnd && !rest.isEmpty then .word rest t.length else .blanks skipped

/-- Makes room in the buffer: the held bytes move to its start when space runs out or most of it
lies before them, and a full buffer doubles up to the limit. -/
def makeRoom (r : WordReader) : WordReader :=
  let r :=
    if 0 < r.offset && (r.offset + r.held.length == r.size || r.size / 2 < r.offset) then
      { r with offset := 0 }
    else r
  if r.offset + r.held.length < r.size then r
  else if maxSize ≤ r.size then { r with stop := some .tooLong }
  else { r with size := if r.size = 0 then initialSize else min (2 * r.size) maxSize, offset := 0 }

/-- Takes bytes from the source into the free part of the buffer. -/
def fill (r : WordReader) : WordReader :=
  match r.source.take (r.size - r.offset - r.held.length) with
  | (.ok t, source) => { r with source := source, held := r.held ++ t }
  | (.error e, source) => { r with source := source, stop := some e }

/-- The next word. Bytes are taken from the source only while no word is complete; each round takes
some or ends the reading, so the supply bounds the rounds. -/
def next : (rounds : Nat) → WordReader → Except ReadStop Text × WordReader
  | 0, r => (.error .ended, r)
  | rounds + 1, r =>
    let found := split r.held r.stop.isSome
    match found, r.stop with
    | .word w used, _ =>
      (.ok w, { r with offset := r.offset + used, held := r.held.drop used })
    | .blanks _, some e => (.error e, { r with offset := 0, held := [] })
    | .blanks used, none =>
      let r := makeRoom { r with offset := r.offset + used, held := r.held.drop used }
      match r.stop with
      | some e => (.error e, r)
      | none => next rounds r.fill

def read (r : WordReader) : Except ReadStop Text × WordReader := next (r.source.supply + 3) r

end WordReader

end CellScript
