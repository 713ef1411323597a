import CellScript.Integer
import CellScript.Json.Codec
import CellScript.Text.Quoted
import CellScript.Tree

/-! Trees from JSON. Decoding walks the value with the path to it at hand, so that a refusal names
the place. Each step goes at least one level into the value, whose depth therefore bounds the
steps. -/
namespace CellScript.Decoding

inductive Cause where
  | wrongNode (wanted : String) (found : Text)
  | lacks (what : String)
  | invalid (what : String)
  | invalidStatement (found : Text)
  | unsupported (what : String) (found : Text)
  | counts (operands operators : Nat)
  | wrongValue (wanted : String) (found : Text)
  | valueRequired (type : Text)
  | badInteger (text : Text) (failure : Integer.Failure)
  | badReal (text : Text)
  | bothOrNoBodies
  | tooDeep

/-- A refusal and the path to the value that caused it. -/
structure Error where
  path : Text
  cause : Cause

namespace Error

def detail (e : Error) : Text :=
  match e.cause with
  | .wrongNode wanted found => utf8 ("expected " ++ wanted ++ ", got ") ++ found.quoted
  | .lacks what => utf8 what
  | .invalid what => utf8 ("invalid " ++ what)
  | .invalidStatement found => utf8 "invalid statement " ++ found
  | .unsupported what found => utf8 ("unsupported " ++ what ++ " ") ++ found.quoted
  | .counts operands operators =>
    utf8 "malformed expression: " ++ Text.ofNat operands ++ utf8 " operands, " ++
      Text.ofNat operators ++ utf8 " operators"
  | .wrongValue wanted found => utf8 ("expected " ++ wanted ++ ", got ") ++ found
  | .valueRequired type => type ++ utf8 " requires a value"
  | .badInteger text failure =>
    utf8 "strconv.ParseInt: parsing " ++ text.quoted ++
      utf8 (match failure with
        | .malformed => ": invalid syntax"
        | .outOfRange _ => ": value out of range")
  | .badReal text =>
    utf8 "strconv.ParseFloat: parsing " ++ text.quoted ++
      utf8 (if Real.isNumber text then ": value out of range" else ": invalid syntax")
  | .bothOrNoBodies => utf8 "function literal needs exactly one of body or exprBody"
  | .tooDeep => utf8 "nested too deeply"

def message (e : Error) : Text := utf8 "ast: " ++ e.path ++ utf8 ": " ++ e.detail

end Error

abbrev Decode (α : Type) := Except Error α

def refuse {α : Type} (path : Text) (cause : Cause) : Decode α := .error ⟨path, cause⟩

def member (path : Text) (name : String) : Text := path ++ utf8 ("." ++ name)

def item (path : Text) (name : String) (index : Nat) : Text :=
  member path name ++ byte '[' :: Text.ofNat index ++ [byte ']']

def get (name : String) (j : Json) : Json := j.get (utf8 name)

def typeOf (j : Json) : Text := (get "type" j).textOrEmpty

/-- An integer; null counts as zero. -/
def integer (path : Text) : Json → Decode Int64
  | .number text =>
    match Integer.read text with
    | .ok n => return n
    | .error failure => refuse path (.badInteger text failure)
  | .null => return 0
  | j => refuse path (.wrongValue "integer" j.kindName)

/-- An integer of a position. Nothing is refused: a number out of range gives the nearest one and
anything else zero. -/
def coordinate : Json → Int
  | .number text =>
    match Integer.read text with
    | .ok n => n.toInt
    | .error (.outOfRange n) => n.toInt
    | .error .malformed => 0
  | _ => 0

def position : Json → Position
  | .object members =>
    ⟨coordinate (get "line" (.object members)), coordinate (get "column" (.object members))⟩
  | _ => ⟨0, 0⟩

def spanOf (j : Json) : Span :=
  match get "span" j with
  | .object members =>
    ⟨position (get "start" (.object members)), position (get "end" (.object members))⟩
  | _ => .zero

def real (path : Text) : Json → Decode Float
  | .number text =>
    match Real.read? text with
    | some x => return x
    | none => refuse path (.badReal text)
  | j => refuse path (.wrongValue "number" j.kindName)

/-- The literals that hold one value. -/
def scalarLiteral (path : Text) (j : Json) (type : String) : Decode Literal := do
  let value := get "value" j
  if value.isNull then refuse (member path "value") (.valueRequired (utf8 type))
  else if type = "IntegerLiteral" then return .integer (spanOf j) (← integer path value)
  else if type = "RealLiteral" then return .real (spanOf j) (← real path value)
  else if type = "BooleanLiteral" then
    match value with
    | .bool b => return .boolean (spanOf j) b
    | _ => refuse (member path "value") (.wrongValue "boolean" value.kindName)
  else
    match value with
    | .string t => return .string (spanOf j) t
    | _ => refuse (member path "value") (.wrongValue "string" value.kindName)

def each {α : Type} (decode : Text → Json → Decode α) (path : Text) (name : String) (j : Json) :
    Decode (List α) :=
  (get name j).itemsOrNone.zipIdx.mapM fun (x, i) => decode (item path name i) x

def required (path : Text) (e : Expr) : Decode Expr :=
  if e.isMissing then refuse path (.lacks "missing expression") else return e

/-- The parameter names of a function; whatever is no text counts as the empty name. -/
def paramsOf (j : Json) : List Text := (get "params" j).itemsOrNone.map (·.textOrEmpty)

mutual

/-- An expression; whatever is no object counts as missing. -/
def expr : (steps : Nat) → (path : Text) → Json → Decode Expr
  | 0, path, .object _ => refuse path .tooDeep
  | n + 1, path, .object members => do
    let j := Json.object members
    if typeOf j ≠ utf8 "Expression" then refuse path (.wrongNode "Expression" (typeOf j))
    let xs ← each (operand n) path "operands" j
    let ops := (get "operators" j).itemsOrNone.map fun op => Word.ofText op.textOrEmpty
    if xs.length ≠ ops.length + 1 then refuse path (.counts xs.length ops.length)
    return .mk (spanOf j) xs ops
  | _, _, _ => return .missing

/-- An operand, which has to be an object. -/
def operand : (steps : Nat) → (path : Text) → Json → Decode Operand
  | 0, path, .object _ => refuse path .tooDeep
  | n + 1, path, .object members => do
    let j := Json.object members
    match get "primary" j with
    | .object parts =>
      let p ← primary n (member path "primary") (.object parts)
      return .mk (spanOf j) (Word.ofOptional (get "operator" j).textOrEmpty) p
        (Word.ofOptional (get "typeTest" j).textOrEmpty)
    | _ => refuse path (.lacks "unary missing primary")
  | _, path, _ => refuse path (.invalid "operand")

def primary : (steps : Nat) → (path : Text) → Json → Decode Primary
  | 0, path, _ => refuse path .tooDeep
  | n + 1, path, j => do
    let kind := (get "kind" j).textOrEmpty
    match Vocabulary.ofText? (α := ReadKind) kind with
    | some k => return .read (spanOf j) (.known k)
    | none =>
      if kind = utf8 "variable" then
        let ts ← each (tail n) path "tails" j
        return .ref (spanOf j) (get "name" j).textOrEmpty ts
      else if kind = utf8 "literal" then
        match get "literal" j with
        | .object parts =>
          return .literal (spanOf j) (← literal n (member path "literal") (.object parts))
        | _ => refuse path (.lacks "literal primary missing literal")
      else if kind = utf8 "parenthesized" then
        let inner ← expr n (member path "inner") (get "inner" j)
        return .paren (spanOf j) (← required (member path "inner") inner)
      else refuse path (.unsupported "primary kind" kind)

/-- A tail, which has to be an object. -/
def tail : (steps : Nat) → (path : Text) → Json → Decode Tail
  | 0, path, .object _ => refuse path .tooDeep
  | n + 1, path, .object members => do
    let j := Json.object members
    let kind := (get "kind" j).textOrEmpty
    if kind = utf8 "tupleIndex" then return .index (spanOf j) (← integer path (get "index" j))
    else if kind = utf8 "tupleName" then return .field (spanOf j) (get "name" j).textOrEmpty
    else if kind = utf8 "subscript" then
      let key ← expr n (member path "subscript") (get "subscript" j)
      return .subscript (spanOf j) (← required (member path "subscript") key)
    else if kind = utf8 "call" then
      return .call (spanOf j) (← each (requiredExpr n) path "arguments" j)
    else refuse path (.unsupported "tail kind" kind)
  | _, path, _ => refuse path (.invalid "tail")

def requiredExpr : (steps : Nat) → (path : Text) → Json → Decode Expr
  | 0, path, _ => refuse path .tooDeep
  | n + 1, path, j => do required path (← expr n path j)

def literal : (steps : Nat) → (path : Text) → Json → Decode Literal
  | 0, path, _ => refuse path .tooDeep
  | n + 1, path, j => do
    let type := typeOf j
    let scalars := ["IntegerLiteral", "RealLiteral", "BooleanLiteral", "StringLiteral"]
    match scalars.find? fun name => utf8 name = type with
    | some name => scalarLiteral path j name
    | none =>
      if type = utf8 "EmptyLiteral" then return .empty (spanOf j)
      else if type = utf8 "ArrayLiteral" then
        return .array (spanOf j) (← each (requiredExpr n) path "elements" j)
      else if type = utf8 "TupleLiteral" then
        return .tuple (spanOf j) (← each (element n) path "elements" j)
      else if type = utf8 "FunctionLiteral" then
        let b ← optionalBody n (member path "body") (get "body" j)
        let result ← expr n (member path "exprBody") (get "exprBody" j)
        match b.isMissing, result.isMissing with
        | false, true => return .function (spanOf j) (paramsOf j) b
        | true, false => return .lambda (spanOf j) (paramsOf j) result
        | _, _ => refuse path .bothOrNoBodies
      else refuse path (.unsupported "literal type" type)

/-- A tuple element, which has to be an object. -/
def element : (steps : Nat) → (path : Text) → Json → Decode Element
  | 0, path, .object _ => refuse path .tooDeep
  | n + 1, path, .object members => do
    let j := Json.object members
    let value ← expr n (member path "value") (get "value" j)
    return .mk (spanOf j) (get "name" j).textOrEmpty (← required (member path "value") value)
  | _, path, _ => refuse path (.invalid "tuple element")

/-- A statement, which has to be an object. -/
def statement : (steps : Nat) → (path : Text) → Json → Decode Statement
  | 0, path, .object _ => refuse path .tooDeep
  | n + 1, path, .object members => do
    let j := Json.object members
    let type := typeOf j
    let partOf (name : String) : Decode Expr := expr n (member path name) (get name j)
    let requiredPart (name : String) : Decode Expr := do required (member path name) (← partOf name)
    let bodyOf (name : String) : Decode Body := optionalBody n (member path name) (get name j)
    let requiredBody (name complaint : String) : Decode Body := do
      let b ← bodyOf name
      if b.isMissing then refuse path (.lacks complaint) else return b
    if type = utf8 "Body" then return .block (← body n path j)
    else if type = utf8 "Declaration" then
      return .declare (spanOf j) (get "name" j).textOrEmpty (← partOf "initializer")
    else if type = utf8 "Assignment" then
      match get "target" j with
      | .object parts =>
        let target ← primary n (member path "target") (.object parts)
        let value ← partOf "value"
        return .assign (spanOf j) target (Word.ofOptional (get "operator" j).textOrEmpty) value
      | _ => refuse path (.lacks "assignment missing target")
    else if type = utf8 "If" then
      let condition ← requiredPart "condition"
      let yes ← requiredBody "then" "if missing then body"
      let no ← bodyOf "else"
      return .branch (spanOf j) condition yes no
    else if type = utf8 "For" then
      let low ← requiredPart "low"
      let high ← requiredPart "high"
      let b ← requiredBody "body" "for missing body"
      return .forLoop (spanOf j) (get "variable" j).textOrEmpty low high b
    else if type = utf8 "While" then
      let condition ← requiredPart "condition"
      let b ← requiredBody "body" "while missing body"
      return .whileLoop (spanOf j) condition b
    else if type = utf8 "Print" then
      return .print (spanOf j) (← each (requiredExpr n) path "arguments" j)
    else if type = utf8 "Return" then return .ret (spanOf j) (← partOf "value")
    else if type = utf8 "Break" then return .brk (spanOf j)
    else if type = utf8 "Continue" then return .cont (spanOf j)
    else refuse path (.unsupported "statement type" type)
  | _, path, j => refuse path (.invalidStatement j.kindName)

/-- A body, which has to be an object of its type. -/
def body : (steps : Nat) → (path : Text) → Json → Decode Body
  | 0, path, _ => refuse path .tooDeep
  | n + 1, path, j => do
    if typeOf j ≠ utf8 "Body" then refuse path (.wrongNode "Body" (typeOf j))
    return .mk (spanOf j) (← each (statement n) path "statements" j) false

/-- A body; whatever is no object counts as missing. -/
def optionalBody : (steps : Nat) → (path : Text) → Json → Decode Body
  | 0, path, .object _ => refuse path .tooDeep
  | n + 1, path, .object members => body n path (.object members)
  | _, _, _ => return .missing

end

def program (j : Json) : Decode Program := do
  if typeOf j ≠ utf8 "Program" then refuse (utf8 "$") (.wrongNode "Program" (typeOf j))
  match get "body" j with
  | .object members =>
    let b ← body (3 * j.depth + 3) (utf8 "$.body") (.object members)
    return ⟨spanOf j, b⟩
  | _ => refuse (utf8 "$.body") (.lacks "missing body")

/-- Why a text gives no program: it is no JSON object, or not the JSON of a tree. -/
inductive Failure where
  | notJson
  | notTree (e : Error)

/-- The program that a JSON text describes. A null document counts as an empty object. -/
def decodeWith (c : Json.Codec) (t : Text) : Except Failure Program :=
  match c.read? t with
  | some (.object members) =>
    match program (.object members) with
    | .ok p => .ok p
    | .error e => .error (.notTree e)
  | some .null => .error (.notTree ⟨utf8 "$", .wrongNode "Program" []⟩)
  | _ => .error .notJson

def decode (t : Text) : Except Failure Program := decodeWith .stream t

end CellScript.Decoding
