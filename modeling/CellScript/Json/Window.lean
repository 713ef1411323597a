import CellScript.Text

/-! A text seen through a window. The text arrives piece by piece: a refill keeps what is ahead and
takes as much as there is room for, and a window that was filled to the brim doubles first. Where
nothing has arrived a reader sees a zero byte, so a zero byte of the text itself also asks for a
refill, which then overwrites it and what follows. -/
namespace CellScript.Json

structure Window where
  /-- The bytes from the cursor on; zeros follow them. -/
  ahead : Text
  /-- How many of the bytes ahead have arrived since the last refill. -/
  live : Nat
  /-- How many places the window has from the cursor on. The last one stays zero. -/
  room : Nat
  /-- How many places before the cursor still belong to the window. -/
  passed : Nat
  /-- How many places the window had when it last grew. -/
  size : Nat
  /-- Whether the last refill left no room. -/
  brim : Bool
  /-- Whether a refill has found the end of the text. -/
  ended : Bool
  /-- What has not arrived yet. -/
  pending : Text

namespace Window

def startSize : Nat := 512

/-- The window before anything has arrived. -/
def ofText (t : Text) : Window := ⟨[], 0, startSize, 0, startSize, false, false, t⟩

def current (w : Window) : UInt8 := w.ahead.headD 0

/-- Moves the cursor over some bytes, of which the window goes on to hold `held` places. -/
def pass (w : Window) (n held : Nat) : Window :=
  { w with
    ahead := w.ahead.drop n
    live := w.live - n
    room := w.room - n
    passed := w.passed + held }

def advance (w : Window) : Window := w.pass 1 1

/-- Gives up the places before the cursor. -/
def release (w : Window) : Window := { w with passed := 0 }

/-- Twice the size, if the window was full. -/
def grow (w : Window) : Window :=
  if w.brim then { w with size := 2 * w.size, room := 2 * w.size - w.passed } else w

/-- Takes in more of the text, after the bytes ahead up to the first zero. The first refill that
gets nothing still counts; after it there are no more. -/
def refill? (w : Window) : Option Window :=
  if w.ended then none
  else
    let w := w.grow
    let kept := (w.ahead.take w.live).takeWhile (· != 0)
    let free := w.room - kept.length - 1
    let piece := w.pending.take free
    let stale := (w.ahead.drop (kept.length + piece.length)).take (free - piece.length)
    some { w with
      ahead := kept ++ piece ++ stale
      live := kept.length + piece.length
      brim := piece.length == free
      ended := w.pending.isEmpty
      pending := w.pending.drop free }

end Window

end CellScript.Json
