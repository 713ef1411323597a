import CellScript.Text

/-! Output. What a program prints collects in a buffer of fixed size and goes on to its destination
piece by piece. A destination may refuse a piece; from then on everything is refused. -/
namespace CellScript

structure Sink where
  taken : Array UInt8
  /-- A piece that would take the total beyond the limit is refused as a whole. -/
  limit : Option Nat
  /-- Whether a text too large for an empty buffer goes past it in one piece. -/
  takesWhole : Bool
  /-- Whether such a text is measured against the limit too. -/
  measuresWhole : Bool
  /-- Whether the last byte shown ended a line. -/
  atLineStart : Bool
deriving DecidableEq, Repr

namespace Sink

def unlimited (takesWhole : Bool) : Sink := ⟨#[], none, takesWhole, false, false⟩

/-- A destination that takes so many bytes, and large texts in any case. -/
def limited (limit : Nat) : Sink := ⟨#[], some limit, true, false, false⟩

def take (s : Sink) (piece : Array UInt8) : Sink :=
  if piece.isEmpty then s
  else { s with taken := s.taken ++ piece, atLineStart := piece.back? == some 10 }

/-- The destination after a piece, unless it is refused. -/
def offer? (s : Sink) (piece : Array UInt8) : Option Sink :=
  match s.limit with
  | some limit => if s.taken.size + piece.size ≤ limit then some (s.take piece) else none
  | none => some (s.take piece)

/-- The destination after a text that goes past the buffer, unless it is refused. -/
def offerWhole? (s : Sink) (piece : Array UInt8) : Option Sink :=
  if s.measuresWhole then s.offer? piece else some (s.take piece)

def text (s : Sink) : Text := s.taken.toList

end Sink

/-- A destination behind a buffer. -/
structure Output where
  sink : Sink
  pending : Array UInt8
  failed : Bool
  /-- Whether what is pending is shown before input is read. -/
  linked : Bool
deriving DecidableEq, Repr

namespace Output

/-- The output of a program that runs. -/
def toSink (sink : Sink) : Output := ⟨sink, #[], false, true⟩

/-- The output while no program has run. -/
def nowhere : Output := { toSink (.unlimited true) with linked := false }

def capacity : Nat := 4096

def flush (o : Output) : Output :=
  if o.failed || o.pending.isEmpty then o
  else match o.sink.offer? o.pending with
  | some sink => { o with sink := sink, pending := #[] }
  | none => { o with failed := true }

/-- What becomes of the output before input is read. -/
def beforeRead (o : Output) : Output := if o.linked then o.flush else o

/-- Passes on the rest at the end of a run. From then on nothing is shown before a read. -/
def close (o : Output) : Output := { o.flush with linked := false }

/-- Writes with an empty buffer. -/
def writeFresh (o : Output) (t : Text) : Output :=
  if o.failed then o
  else if t.length ≤ capacity then { o with pending := t.toArray }
  else if o.sink.takesWhole then
    match o.sink.offerWhole? t.toArray with
    | some sink => { o with sink := sink }
    | none => { o with failed := true }
  else writeFresh (flush { o with pending := (t.take capacity).toArray }) (t.drop capacity)
termination_by t.length
decreasing_by
  have : 0 < capacity := by decide
  simp only [List.length_drop]
  omega

/-- Writes a text. As much of it as fits joins what is pending; if there is more, the full buffer
is passed on first. -/
def write (o : Output) (t : Text) : Output :=
  let room := capacity - o.pending.size
  if o.failed then o
  else if t.length ≤ room then { o with pending := o.pending ++ t }
  else if o.pending.isEmpty then o.writeFresh t
  else writeFresh (flush { o with pending := o.pending ++ t.take room }) (t.drop room)

end Output

end CellScript
