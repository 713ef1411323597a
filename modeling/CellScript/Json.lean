import CellScript.Text

/-! JSON values. Numbers keep their text, and of several members with one name the last counts. -/
namespace CellScript

inductive Json where
  | null
  | bool (b : Bool)
  | number (text : Text)
  | string (text : Text)
  | array (items : List Json)
  | object (members : List (Text × Json))

namespace Json

/-- How messages call a value of this kind. -/
def kindName : Json → Text
  | null => utf8 "<nil>"
  | bool _ => utf8 "bool"
  | number _ => utf8 "json.Number"
  | string _ => utf8 "string"
  | array _ => utf8 "[]interface \x7b\x7d"
  | object _ => utf8 "map[string]interface \x7b\x7d"

/-- The value of the last member with a name; null if there is none or this is no object. -/
def get (name : Text) : Json → Json
  | object members =>
    members.foldl (fun found (n, v) => if n = name then v else found) null
  | _ => null

def textOrEmpty : Json → Text
  | string t => t
  | _ => []

def itemsOrNone : Json → List Json
  | array items => items
  | _ => []

def isNull : Json → Bool
  | null => true
  | _ => false

mutual

/-- The number of objects and arrays around the innermost value. -/
def depth : Json → Nat
  | array items => depthItems items + 1
  | object members => depthMembers members + 1
  | _ => 0

def depthItems : List Json → Nat
  | [] => 0
  | j :: js => max j.depth (depthItems js)

def depthMembers : List (Text × Json) → Nat
  | [] => 0
  | (_, j) :: js => max j.depth (depthMembers js)

end

end Json

end CellScript
