import CellScript.Integer
import CellScript.Text.Case

/-! Levels of logging: small numbers, some of which have names. -/
namespace CellScript

structure LogLevel where
  number : Int
deriving DecidableEq, Repr

namespace LogLevel

/-- The levels with a name. The one with the empty name stands for no level. -/
def named : List (Text × LogLevel) :=
  [(utf8 "trace", ⟨-1⟩), (utf8 "debug", ⟨0⟩), (utf8 "info", ⟨1⟩), (utf8 "warn", ⟨2⟩),
   (utf8 "error", ⟨3⟩), (utf8 "fatal", ⟨4⟩), (utf8 "panic", ⟨5⟩), (utf8 "disabled", ⟨7⟩),
   ([], ⟨6⟩)]

def warn : LogLevel := ⟨2⟩

def text (l : LogLevel) : Text :=
  match named.find? fun e => e.2 == l with
  | some e => e.1
  | none => Text.ofInt l.number

inductive Failure where
  | unknown (word : Text)
  | outOfBounds (number : Int)
deriving DecidableEq, Repr

namespace Failure

def message : Failure → Text
  | unknown word => utf8 "Unknown Level String: '" ++ word ++ utf8 "', defaulting to NoLevel"
  | outOfBounds n =>
    utf8 "Out-Of-Bounds Level: '" ++ Text.ofInt n ++ utf8 "', defaulting to NoLevel"

end Failure

/-- The level that a word names: a name in any case, or a number of one byte. -/
def ofText (word : Text) : Except Failure LogLevel :=
  match named.find? fun e => Text.equalsWord e.1 word with
  | some e => .ok e.2
  | none =>
    match Integer.read word with
    | .ok n =>
      if n.toInt < -128 || 127 < n.toInt then .error (.outOfBounds n.toInt) else .ok ⟨n.toInt⟩
    | .error _ => .error (.unknown word)

end LogLevel

end CellScript
