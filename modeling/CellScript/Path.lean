import CellScript.Text

/-! Paths: names separated by slashes. -/
namespace CellScript.Path

def slash : UInt8 := byte '/'

def here : Text := utf8 "."

def up : Text := utf8 ".."

def isAbsolute (p : Text) : Bool := p.head? == some slash

/-- Adds a name to names in reverse order. A step upwards takes the last name away; at the root
there is nothing to take away, and elsewhere the step itself is kept. -/
def push (rooted : Bool) (names : List Text) (name : Text) : List Text :=
  if name.isEmpty || name = here then names
  else if name = up then
    match names with
    | last :: rest => if last = up then up :: names else rest
    | [] => if rooted then [] else [up]
  else name :: names

/-- The shortest path that leads to the same place. -/
def clean (p : Text) : Text :=
  let rooted := isAbsolute p
  let body := Text.join [slash] ((p.splitOn slash).foldl (push rooted) []).reverse
  if rooted then slash :: body else if body.isEmpty then here else body

/-- Paths put together; empty ones do not count. -/
def join (ps : List Text) : Text :=
  match ps.filter (!·.isEmpty) with
  | [] => []
  | ps => clean (Text.join [slash] ps)

/-- What follows the last slash. -/
def lastName (p : Text) : Text := ((p.splitOn slash).getLast?).getD []

def parent (p : Text) : Text := clean (p.take (p.length - (lastName p).length))

/-- The last name from its last dot on; nothing if it has no dot. -/
def extension (p : Text) : Text :=
  let parts := (lastName p).splitOn (byte '.')
  match parts with
  | _ :: _ :: _ => byte '.' :: (parts.getLast?).getD []
  | _ => []

/-- The path as seen from the root, for a process that works in `cwd`. -/
def absolute (cwd p : Text) : Text := if isAbsolute p then clean p else join [cwd, p]

end CellScript.Path
