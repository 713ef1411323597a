import CellScript.Optimize.Fold
import CellScript.Text.Quoted

/-! Optimisation: passes that simplify a tree and keep what it prints and how it fails. -/
namespace CellScript.Optimize

/-- The passes, in the order in which they run. -/
inductive Pass where
  | constantFolding
  | deadBranches
  | unreachable
deriving DecidableEq, Repr

instance : Vocabulary Pass where
  all := [.constantFolding, .deadBranches, .unreachable]
  spelling p := utf8 (match p with
    | .constantFolding => "constant-folding"
    | .deadBranches => "dead-branches"
    | .unreachable => "unreachable")

namespace Pass

def all : List Pass := Vocabulary.all

def name (p : Pass) : Text := Vocabulary.spelling p

def names : List Text := all.map name

/-- The passes among some names. -/
def ofNames (wanted : List Text) : List Pass := all.filter fun p => wanted.contains p.name

def unknownMessage (name : Text) : Text :=
  utf8 "unknown optimizer pass " ++ name.quoted ++ utf8 " (known: " ++
    Text.join (utf8 ", ") names ++ utf8 ")"

def firstUnknown? (wanted : List Text) : Option Text := wanted.find? fun w => !names.contains w

end Pass

/-- The value of a condition that is a boolean literal. -/
def literalCondition? (e : Expr) : Option Bool :=
  match plainLiteral? e with
  | some (.boolean _ b) => some b
  | _ => none

/-- What stays of a statement: a branch whose condition is known gives way to the body that would
run, which keeps a scope of its own, and a loop that never runs disappears. -/
def liveParts (s : Statement) : Option (List Statement) :=
  match s with
  | .branch _ condition yes no =>
    (literalCondition? condition).map fun c =>
      let taken := if c then yes else no
      if taken.statements.isEmpty then [] else [.block taken]
  | .whileLoop _ condition _ =>
    if literalCondition? condition = some false then some [] else none
  | _ => none

def dropDeadBranches : Body → Option Body
  | .missing => none
  | .mk span ss _ =>
    if ss.any fun s => (liveParts s).isSome then
      some (.mk span (ss.flatMap fun s => (liveParts s).getD [s]) true)
    else none

/-- Whether nothing after the statement can run. -/
def leaves : Statement → Bool
  | .ret .. | .brk _ | .cont _ => true
  | _ => false

/-- Statements up to the first one that leaves the body. -/
def upToLeaving : List Statement → List Statement
  | [] => []
  | s :: ss => if leaves s then [s] else s :: upToLeaving ss

def dropUnreachable : Body → Option Body
  | .missing => none
  | .mk span ss cleared =>
    let kept := upToLeaving ss
    if kept.length < ss.length then some (.mk span kept cleared) else none

def Pass.rules (assoc : Associativity) : Pass → Rules
  | .constantFolding => foldRules assoc
  | .deadBranches => { Rules.none with body := dropDeadBranches }
  | .unreachable => { Rules.none with body := dropUnreachable }

def runPass (assoc : Associativity) (p : Program) (pass : Pass) : Revised Program := do
  return { p with body := ← Walk.body (pass.rules assoc) p.body }

def round (assoc : Associativity) (passes : List Pass) (p : Program) : Revised Program :=
  passes.foldlM (runPass assoc) p

/-- Rounds until one changes nothing or the bound is reached; with their number. -/
def rounds (assoc : Associativity) (passes : List Pass) : (bound : Nat) → Program → Nat × Program
  | 0, p => (0, p)
  | bound + 1, p =>
    let r := round assoc passes p
    if r.changed then
      let (n, p) := rounds assoc passes bound r.value
      (n + 1, p)
    else (0, r.value)

def defaultRounds : Nat := 16

/-- The number of rounds allowed; only a wish for at least one counts. -/
def boundOf (wish : Int) : Nat := if 0 < wish then wish.toNat else defaultRounds

end CellScript.Optimize
