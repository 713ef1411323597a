import CellScript.Config
import CellScript.Yaml.Meaning
import CellScript.Yaml.Node

/-! Configurations written in YAML: a document with one map, whose keys are the settings. -/
namespace CellScript.Config.Yaml

open CellScript.Yaml

/-- The scalar that a node is or refers to, and what it means. -/
def meaning? : Node → Option (Meaning × Text)
  | .scalar tag plain t => (Meaning.ofScalar? tag plain t).map (·, t)
  | .alias _ (.scalar tag plain t) => (Meaning.ofScalar? tag plain t).map (·, t)
  | _ => none

/-- The text that is meant. A number or truth value counts as it is written. -/
def text? (x : Node) : Option (Option Text) := do
  match ← meaning? x with
  | (.null, _) => return none
  | (.text t, _) => return some t
  | (_, written) => return some written

/-- A value of the wanted kind, or nothing. -/
def optional? {α : Type} (get? : Meaning → Option α) (x : Node) : Option (Option α) := do
  match ← meaning? x with
  | (.null, _) => return none
  | (m, _) => return some (← get? m)

/-- The texts of items; those that say nothing are passed over. -/
def itemTexts? : List Node → Option (List Text)
  | [] => some []
  | x :: xs => do
    let t ← text? x
    return t.toList ++ (← itemTexts? xs)

def texts? (x : Node) : Option (Option (List Text)) :=
  match x with
  | .list xs => (itemTexts? xs).map some
  | .alias _ (.list xs) => (itemTexts? xs).map some
  | x => optional? (fun _ => none) x

def reading : Draft.Reading Node where
  text := text?
  bool := optional? Meaning.bool?
  int := optional? Meaning.int?
  texts := texts?

/-- What two keys of a map must not share: their kind and how they are written. -/
def keyMark : Node → Nat × Text
  | .scalar _ _ t => (0, t)
  | .list _ => (1, [])
  | .map _ => (2, [])
  | .alias name _ => (3, name)
  | .knot => (4, [])

/-- Whether a key takes over the entries of other maps. -/
def isMerge : Node → Bool
  | .scalar tag plain t => t == Meaning.mergeWord && (plain && tag.isEmpty || tag == utf8 "!!merge")
  | _ => false

/-- The entries with a key of their own. An entry without a key says nothing. -/
def ownEntries? : List (Node × Node) → Option (List (Text × Node))
  | [] => some []
  | (k, v) :: es =>
    if isMerge k then ownEntries? es
    else do
      let key ← text? k
      return (key.map (·, v)).toList ++ (← ownEntries? es)

def mapEntries? : Node → Option (List (Node × Node))
  | .map es | .alias _ (.map es) => some es
  | _ => none

/-- The maps whose entries are taken over: one map or a list of them. -/
def mergeSources? : Node → Option (List (List (Node × Node)))
  | .list xs => xs.mapM mapEntries?
  | x => (mapEntries? x).map ([·])

def sources? (es : List (Node × Node)) : Option (List (List (Node × Node))) :=
  match es.find? fun e => isMerge e.1 with
  | some (_, x) => mergeSources? x
  | none => some []

/-- The entries whose key is new, each key once. -/
def newEntries (seen : List Text) : List (Text × Node) → List (Text × Node)
  | [] => []
  | (k, v) :: es =>
    if seen.contains k then newEntries seen es else (k, v) :: newEntries (k :: seen) es

/-- The entries that some maps add to those with the keys `seen`: their own before those that they
take over themselves, and no key twice. -/
def added? : (steps : Nat) → (seen : List Text) → List (List (Node × Node)) →
    Option (List (Text × Node))
  | _, _, [] => some []
  | 0, _, _ :: _ => none
  | n + 1, seen, es :: more => do
    if !Draft.distinct (es.map (keyMark ·.1)) then none
    let own := newEntries seen (← ownEntries? es)
    let inner ← added? n (own.map (·.1) ++ seen) (← sources? es)
    let found := own ++ inner
    return found ++ (← added? n (found.map (·.1) ++ seen) more)

def entries? (steps : Nat) (es : List (Node × Node)) : Option (List (Text × Node)) := do
  if !Draft.distinct (es.map (keyMark ·.1)) then none
  let own ← ownEntries? es
  return own ++ (← added? steps (own.map (·.1)) (← sources? es))

/-- The draft that a configuration text describes. -/
def draft? (t : Text) : Option Draft := do
  match ← document? t with
  | none => return .empty
  | some (.map es) => Draft.ofEntries reading (← entries? (t.length + 1) es)
  | some x =>
    match ← meaning? x with
    | (.null, _) => return .empty
    | _ => none

end CellScript.Config.Yaml
