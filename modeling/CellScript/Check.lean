import CellScript.Diagnostic
import CellScript.Tree

/-! Static checks: every name is known where it is used, `break` and `continue` stand in a loop, and
no name is given twice where it may be given once. The walk passes the names known so far
downwards and never looks back, so findings come in the order of the walk. -/
namespace CellScript.Check

inductive Problem where
  | breakOutsideLoop
  | continueOutsideLoop
  | topLevelReturn
  | undefinedName (name : Text)
  | redeclared (name : Text)
  | duplicateParam (name : Text)
  | duplicateKey (name : Text)
deriving DecidableEq, Repr

namespace Problem

def severity : Problem → Severity
  | topLevelReturn => .warning
  | _ => .error

def code : Problem → Text
  | breakOutsideLoop => utf8 "E_BREAK_OUTSIDE_LOOP"
  | continueOutsideLoop => utf8 "E_CONTINUE_OUTSIDE_LOOP"
  | topLevelReturn => utf8 "W_TOP_LEVEL_RETURN"
  | undefinedName _ => utf8 "E_UNDEFINED"
  | redeclared _ => utf8 "E_REDECLARED"
  | duplicateParam _ => utf8 "E_DUP_PARAM"
  | duplicateKey _ => utf8 "E_DUP_KEY"

def message : Problem → Text
  | breakOutsideLoop => utf8 "break outside of a loop"
  | continueOutsideLoop => utf8 "continue outside of a loop"
  | topLevelReturn => utf8 "return outside a function ends the program"
  | undefinedName name => utf8 "undefined variable '" ++ name ++ utf8 "'"
  | redeclared name => utf8 "'" ++ name ++ utf8 "' is already declared in this scope"
  | duplicateParam name => utf8 "duplicate parameter '" ++ name ++ utf8 "'"
  | duplicateKey name => utf8 "duplicate tuple key '" ++ name ++ utf8 "'"

end Problem

structure Finding where
  problem : Problem
  span : Span
deriving DecidableEq, Repr

namespace Finding

/-- Code and message after the place, if there is one. -/
def line (span : Span) (code message : Text) : Text :=
  (if span.isZero then [] else span.text ++ utf8 ": ") ++ code ++ utf8 ": " ++ message

def text (f : Finding) : Text := line f.span f.problem.code f.problem.message

def diagnostic (path : Text) (f : Finding) : Diagnostic :=
  ⟨f.problem.severity, f.problem.code, f.problem.message, .ofSpan path f.span, []⟩

def isError (f : Finding) : Bool := f.problem.severity == .error

end Finding

/-- What is known at a point of the program. -/
structure Context where
  /-- Names bound before the program starts. -/
  globals : List Text
  /-- Names that the top level declares anywhere. A function body runs later than the statements
  around it, so it may use them all. -/
  hoisted : List Text
  /-- Names declared so far in the open scopes, innermost first. -/
  scopes : List (List Text)
  inLoop : Bool
  inFunction : Bool

namespace Context

def knows (c : Context) (name : Text) : Bool :=
  c.scopes.any (·.contains name) || c.globals.contains name ||
    (c.inFunction && c.hoisted.contains name)

def declares (c : Context) (name : Text) : Bool :=
  match c.scopes with
  | names :: _ => names.contains name
  | [] => false

def declare (c : Context) (name : Text) : Context :=
  match c.scopes with
  | names :: outer => { c with scopes := (name :: names) :: outer }
  | [] => c

def enter (c : Context) (names : List Text) : Context := { c with scopes := names :: c.scopes }

/-- The context of a function body: loops around the function are out of reach, and a function that
is being declared knows its own name. -/
def enterFunction (c : Context) (self : Text) (params : List Text) : Context :=
  let c := { c with inLoop := false, inFunction := true }
  (if self.isEmpty then c else c.enter [self]).enter params

def after (c : Context) : Statement → Context
  | .declare _ name _ => c.declare name
  | _ => c

end Context

def duplicateParams (span : Span) (seen : List Text) : List Text → List Finding
  | [] => []
  | p :: ps =>
    (if seen.contains p then [⟨.duplicateParam p, span⟩] else []) ++
      duplicateParams span (p :: seen) ps

def reportIf (bad : Bool) (problem : Problem) (span : Span) : List Finding :=
  if bad then [⟨problem, span⟩] else []

mutual

/-- `self` is the name under which an expression is declared; it matters only to a function
literal that is the whole expression. -/
def expr (c : Context) (self : Text) : Expr → List Finding
  | .missing => []
  | .mk _ [x] _ => operand c self x
  | .mk _ xs _ => operands c xs

def exprs (c : Context) : List Expr → List Finding
  | [] => []
  | e :: es => expr c [] e ++ exprs c es

def operand (c : Context) (self : Text) : Operand → List Finding
  | .mk _ none p none => primary c self p
  | .mk _ _ p _ => primary c [] p

def operands (c : Context) : List Operand → List Finding
  | [] => []
  | x :: xs => operand c [] x ++ operands c xs

def primary (c : Context) (self : Text) : Primary → List Finding
  | .read _ _ => []
  | .ref span name ts => reportIf (!c.knows name) (.undefinedName name) span ++ tails c ts
  | .literal _ l => literal c self l
  | .paren _ inner => expr c [] inner

def tail (c : Context) : Tail → List Finding
  | .index _ _ | .field _ _ => []
  | .subscript _ key => expr c [] key
  | .call _ arguments => exprs c arguments

def tails (c : Context) : List Tail → List Finding
  | [] => []
  | t :: ts => tail c t ++ tails c ts

def literal (c : Context) (self : Text) : Literal → List Finding
  | .array _ es => exprs c es
  | .tuple _ es => elements c [] es
  | .function span params b =>
    duplicateParams span [] params ++ functionBody (c.enterFunction self params) b
  | .lambda span params result =>
    duplicateParams span [] params ++ expr (c.enterFunction self params) [] result
  | _ => []

/-- Tuple elements; `seen` are the names of those before. -/
def elements (c : Context) (seen : List Text) : List Element → List Finding
  | [] => []
  | .mk span name value :: es =>
    expr c [] value ++
      reportIf (!name.isEmpty && seen.contains name) (.duplicateKey name) span ++
      elements c (name :: seen) es

def statement (c : Context) : Statement → List Finding
  | .declare span name initial =>
    expr c name initial ++ reportIf (c.declares name) (.redeclared name) span
  | .assign _ target _ value => primary c [] target ++ expr c [] value
  | .branch _ condition yes no => expr c [] condition ++ body c yes ++ body c no
  | .forLoop _ counter low high b =>
    expr c [] low ++ expr c [] high ++ body { c.enter [counter] with inLoop := true } b
  | .whileLoop _ condition b => expr c [] condition ++ body { c with inLoop := true } b
  | .print _ arguments => exprs c arguments
  | .ret span value => reportIf (!c.inFunction) .topLevelReturn span ++ expr c [] value
  | .brk span => reportIf (!c.inLoop) .breakOutsideLoop span
  | .cont span => reportIf (!c.inLoop) .continueOutsideLoop span
  | .block b => body c b

def statements (c : Context) : List Statement → List Finding
  | [] => []
  | s :: ss => statement c s ++ statements (c.after s) ss

/-- A body in a scope of its own. -/
def body (c : Context) : Body → List Finding
  | .missing => []
  | .mk _ ss _ => statements (c.enter []) ss

/-- The body of a function, which shares the scope of the parameters. -/
def functionBody (c : Context) : Body → List Finding
  | .missing => []
  | .mk _ ss _ => statements c ss

end

/-- The names that statements declare directly. -/
def declaredNames (ss : List Statement) : List Text :=
  ss.filterMap fun
    | .declare _ name _ => some name
    | _ => none

/-- All findings about a program that starts with the given global names. -/
def program (globals : List Text) (p : Program) : List Finding :=
  let ss := p.body.statements
  statements ⟨globals, globals ++ declaredNames ss, [[]], false, false⟩ ss

def anyError (fs : List Finding) : Bool := fs.any (·.isError)

end CellScript.Check
