import CellScript.Yaml.Lexer

/-! The nodes of a YAML document. -/
namespace CellScript.Yaml

inductive Node where
  /-- A scalar; a tag is empty if there is none. -/
  | scalar (tag : Text) (plain : Bool) (text : Text)
  | list (items : List Node)
  | map (entries : List (Node × Node))
  | alias (name : Text) (target : Node)
  /-- What an alias inside the very node that it names stands for. -/
  | knot

namespace Node

/-- A node that is not written. -/
def empty : Node := .scalar [] true []

end Node

/-- The tokens still to be read, the meaning of tag handles and the nodes with a name; later ones
come first. -/
structure NodeReader where
  lexer : Lexer
  handles : List (Text × Text)
  anchors : List (Text × Node)

abbrev Reading := StateT NodeReader Option

namespace Reading

def peek : Reading Token := do
  let (token, lexer) ← (← get).lexer.peek
  modify fun s => { s with lexer := lexer }
  return token

def skip : Reading Unit := modify fun s => { s with lexer := s.lexer.take }

/-- The place of the tags that every document knows. -/
def coreTags : Text := utf8 "tag:yaml.org,2002:"

def coreHandles : List (Text × Text) := [(utf8 "!", utf8 "!"), (utf8 "!!", coreTags)]

/-- A tag with the short form of the core handle. -/
def shortTag (tag : Text) : Text :=
  if coreTags.isPrefixOf tag then utf8 "!!" ++ tag.drop coreTags.length else tag

/-- The tag that a handle and a suffix make. -/
def fullTag (handle suffix : Text) : Reading Text := do
  if handle.isEmpty then return suffix
  match (← get).handles.find? (·.1 == handle) with
  | some (_, start) => if (start ++ suffix).isEmpty then failure else return start ++ suffix
  | none => failure

def anchor? : Reading (Option Text) := do
  match ← peek with
  | .anchor name =>
    skip
    return some name
  | _ => return none

/-- A tag; the bare mark is no tag but keeps an empty node from being missing. -/
def tag? : Reading (Option Text) := do
  match ← peek with
  | .tag handle suffix =>
    skip
    return some (← fullTag handle suffix)
  | _ => return none

/-- The name and the tag of a node, in any order. -/
def properties : Reading (Option Text × Option Text) := do
  match ← anchor? with
  | some name => return (some name, ← tag?)
  | none =>
    let tag ← tag?
    return (← anchor?, tag)

def bindName (name : Option Text) (x : Node) : Reading Unit :=
  match name with
  | some name => modify fun s => { s with anchors := (name, x) :: s.anchors }
  | none => return ()

/-- Reads a collection. While it is open its name leads to itself; a name that was given again
inside it stays. -/
def named (name : Option Text) (collection : Reading Node) : Reading Node := do
  bindName name .knot
  let x ← collection
  match name with
  | some n =>
    match (← get).anchors.find? (·.1 == n) with
    | some (_, .knot) => bindName name x
    | _ => return x
  | none => return x
  return x

/-- A scalar with a tag; the bare mark means no tag. -/
def scalar (tag : Option Text) (plain : Bool) (text : Text) : Node :=
  let tag := tag.getD []
  .scalar (if tag = utf8 "!" then [] else shortTag tag) plain text

mutual

/-- A node. Blocks start only where `block` holds, and a list without indentation of its own only
where `indentless` does. -/
def node (block indentless : Bool) : (steps : Nat) → Reading Node
  | 0 => failure
  | n + 1 => do
    match ← peek with
    | .alias name =>
      skip
      match (← get).anchors.find? (·.1 == name) with
      | some (_, target) => return .alias name target
      | none => failure
    | _ =>
      let (name, tag) ← properties
      match ← peek with
      | .scalar plain text =>
        skip
        let x := scalar tag plain text
        bindName name x
        return x
      | .flowListStart =>
        named name do
          skip
          return .list (← flowItems true n)
      | .flowMapStart =>
        named name do
          skip
          return .map (← flowEntries true n)
      | .item =>
        if indentless then named name do return .list (← looseItems n)
        else absent name tag
      | .blockListStart =>
        if block then
          named name do
            skip
            return .list (← blockItems n)
        else absent name tag
      | .blockMapStart =>
        if block then
          named name do
            skip
            return .map (← blockEntries n)
        else absent name tag
      | _ => absent name tag

/-- A node of which only the name or the tag is written. -/
def absent (name tag : Option Text) : Reading Node := do
  if name.isNone && tag.isNone then failure
  let x := scalar tag true []
  bindName name x
  return x

/-- A node, unless the next token shows that it is not written. -/
def optionalNode (block indentless : Bool) (missing : Token → Bool) : (steps : Nat) → Reading Node
  | 0 => failure
  | n + 1 => do
    if missing (← peek) then return .empty else node block indentless n

/-- The items of a block list up to its end. -/
def blockItems : (steps : Nat) → Reading (List Node)
  | 0 => failure
  | n + 1 => do
    match ← peek with
    | .item =>
      skip
      let x ← optionalNode true false (fun t => t == .item || t == .blockEnd) n
      return x :: (← blockItems n)
    | .blockEnd =>
      skip
      return []
    | _ => failure

/-- The items of a list at the indentation of its parent. -/
def looseItems : (steps : Nat) → Reading (List Node)
  | 0 => failure
  | n + 1 => do
    match ← peek with
    | .item =>
      skip
      let x ← optionalNode true false
        (fun t => t == .item || t == .key || t == .value || t == .blockEnd) n
      return x :: (← looseItems n)
    | _ => return []

/-- The entries of a block map up to its end. A key without a colon has an empty value. -/
def blockEntries : (steps : Nat) → Reading (List (Node × Node))
  | 0 => failure
  | n + 1 => do
    let missing (t : Token) : Bool := t == .key || t == .value || t == .blockEnd
    match ← peek with
    | .key =>
      skip
      let k ← optionalNode true true missing n
      if (← peek) == .value then
        skip
        let v ← optionalNode true true missing n
        return (k, v) :: (← blockEntries n)
      else return (k, .empty) :: (← blockEntries n)
    | .blockEnd =>
      skip
      return []
    | _ => failure

/-- The items of a flow list up to its closing bracket. A key among them makes a map of one
entry. -/
def flowItems (first : Bool) : (steps : Nat) → Reading (List Node)
  | 0 => failure
  | n + 1 => do
    if !first && (← peek) != .flowListEnd then
      if (← peek) == .separator then skip else failure
    match ← peek with
    | .flowListEnd =>
      skip
      return []
    | .key =>
      skip
      let (k, v) ← flowEntry (fun t => t == .separator || t == .flowListEnd) n
      return .map [(k, v)] :: (← flowItems false n)
    | _ =>
      let x ← node false false n
      return x :: (← flowItems false n)

/-- The entries of a flow map up to its closing brace. What has no key mark is a key alone. -/
def flowEntries (first : Bool) : (steps : Nat) → Reading (List (Node × Node))
  | 0 => failure
  | n + 1 => do
    if !first && (← peek) != .flowMapEnd then
      if (← peek) == .separator then skip else failure
    match ← peek with
    | .flowMapEnd =>
      skip
      return []
    | .key =>
      skip
      let e ← flowEntry (fun t => t == .separator || t == .flowMapEnd) n
      return e :: (← flowEntries false n)
    | _ =>
      let k ← node false false n
      return (k, .empty) :: (← flowEntries false n)

def flowEntry (ends : Token → Bool) : (steps : Nat) → Reading (Node × Node)
  | 0 => failure
  | n + 1 => do
    let k ← optionalNode false false (fun t => t == .value || ends t) n
    if (← peek) == .value then
      skip
      return (k, ← optionalNode false false ends n)
    else return (k, .empty)

end

/-- The version of the language that a document may ask for. -/
def version : Nat × Nat := (1, 1)

/-- The directives before a document: its version at most once, and handles of tags, each once. -/
def directives (versioned : Bool) : (steps : Nat) → Reading Unit
  | 0 => failure
  | n + 1 => do
    match ← peek with
    | .version major minor =>
      if versioned || (major, minor) != version then failure
      skip
      directives true n
    | .tagDirective handle start =>
      let known := (← get).handles
      if known.any (·.1 == handle) then failure
      skip
      modify fun s => { s with handles := (handle, start) :: known }
      directives versioned n
    | _ => return ()

/-- The first document; there is none in a text that says nothing. After it another token must be
found, whatever it is. -/
def document (n : Nat) : Reading (Option Node) := do
  match ← peek with
  | .streamEnd => return none
  | .version .. | .tagDirective .. | .documentStart =>
    directives false n
    modify fun s => { s with handles := s.handles ++ coreHandles }
    if (← peek) != .documentStart then failure
    skip
    let x ← optionalNode true false Token.endsDocument n
    let _ ← peek
    return some x
  | _ =>
    modify fun s => { s with handles := coreHandles }
    let x ← node true false n
    let _ ← peek
    return some x

end Reading

/-- The first document of a text: none if it says nothing, and nothing at all if it is malformed. A
character brings about at most four tokens, and each step takes one or is followed by one that
does, which bounds the steps. -/
def document? (t : Text) : Option (Option Node) := do
  let cs ← characters? t
  let start : NodeReader := ⟨.ofCharacters cs, [], []⟩
  let (x, _) ← (Reading.document (8 * cs.length + 16)).run start
  return x

end CellScript.Yaml
