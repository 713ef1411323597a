import CellScript.Fault

/-! Scopes: the global frame and the frames opened since, innermost first. -/
namespace CellScript

/-- The bindings of one scope and who opened it. -/
structure Frame where
  owner : Option Owner
  bindings : Bindings

structure Scopes where
  globals : Bindings
  inner : List Frame

namespace Scopes

def empty : Scopes := ⟨[], []⟩

/-- The number of frames, the global one included. -/
def depth (s : Scopes) : Nat := s.inner.length + 1

def openWith (s : Scopes) (owner : Option Owner) (bindings : Bindings) : Scopes :=
  { s with inner := ⟨owner, bindings⟩ :: s.inner }

/-- The frames below the innermost one of an owner. -/
def below? (owner : Option Owner) : List Frame → Option (List Frame)
  | [] => none
  | f :: fs => if f.owner = owner then some fs else below? owner fs

/-- Removes the innermost frame of an owner and the frames above it. -/
def close (s : Scopes) (owner : Option Owner) : Except Fault Scopes :=
  match below? owner s.inner with
  | some inner => .ok { s with inner := inner }
  | none => .error (.noOpenScope owner)

/-- Leaves only the global frame. -/
def reset (s : Scopes) : Scopes := { s with inner := [] }

def bind (s : Scopes) (name : Text) (cell : CellRef) : Scopes :=
  match s.inner with
  | f :: fs => { s with inner := { f with bindings := f.bindings.set name cell } :: fs }
  | [] => { s with globals := s.globals.set name cell }

/-- The cell of a name: the innermost frame that binds it decides. -/
def lookup? (s : Scopes) (name : Text) : Option CellRef :=
  (s.inner.findSome? fun f => f.bindings.get? name).or (s.globals.get? name)

def lookup (s : Scopes) (name : Text) : Except Fault CellRef :=
  match s.lookup? name with
  | some cell => .ok cell
  | none => .error (.undefinedVariable name)

/-- All visible bindings: from the outside inwards, later frames over earlier ones. -/
def snapshot (s : Scopes) : Bindings :=
  s.inner.foldr (fun f visible => visible.override f.bindings) s.globals

end Scopes

end CellScript
