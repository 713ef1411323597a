import CellScript.Integer
import CellScript.Text.Quoted
import CellScript.Value

/-! Faults: every way in which a run can fail, with its class and its wording. -/
namespace CellScript

inductive FaultKind where
  | typeMismatch | keyConflict | undefinedVariable | arityMismatch | indexOutOfRange | keyNotFound
  | notBoolean | rangeBoundNotInteger | controlFlowEscape | divisionByZero | stackOverflow
  | inputError | internal
deriving DecidableEq, Repr

namespace FaultKind

def name : FaultKind → Text
  | typeMismatch => utf8 "TypeMismatch"
  | keyConflict => utf8 "KeyConflict"
  | undefinedVariable => utf8 "UndefinedVariable"
  | arityMismatch => utf8 "ArityMismatch"
  | indexOutOfRange => utf8 "IndexOutOfRange"
  | keyNotFound => utf8 "KeyNotFound"
  | notBoolean => utf8 "NotBoolean"
  | rangeBoundNotInteger => utf8 "RangeBoundNotInteger"
  | controlFlowEscape => utf8 "ControlFlowEscape"
  | divisionByZero => utf8 "DivisionByZero"
  | stackOverflow => utf8 "StackOverflow"
  | inputError => utf8 "InputError"
  | internal => utf8 "Internal"

end FaultKind

inductive OwnerKind where
  | body | forLoop | function
deriving DecidableEq, Repr

namespace OwnerKind

def name : OwnerKind → Text
  | body => utf8 "Body"
  | forLoop => utf8 "For"
  | function => utf8 "FunctionLiteral"

end OwnerKind

/-- Who opened a scope. Constructs without a place are told apart by their tag. -/
structure Owner where
  kind : OwnerKind
  span : Span
  tag : Text
deriving DecidableEq, Repr

namespace Owner

def text (o : Owner) : Text := o.kind.name ++ utf8 " at " ++ o.span.text

end Owner

inductive Fault where
  | binaryUndefined (op : BinaryOp) (left right : TypeName)
  | unaryUndefined (op : Word UnaryOp) (type : TypeName)
  | divisionByZero
  | duplicateKey (name : Text)
  | undefinedVariable (name : Text)
  | noPosition (position : Int64) (size : Nat)
  | noField (name : Text)
  | positionOf (position : Int64) (type : TypeName)
  | fieldOf (name : Text) (type : TypeName)
  | subscriptOf (type : TypeName)
  | subscriptNotInteger (type : TypeName)
  | callOf (type : TypeName)
  | arity (params arguments : Nat)
  | tooManyCalls (limit : Nat)
  | conditionNotBoolean (construct : String) (type : TypeName)
  | boundNotInteger (which : String) (type : TypeName)
  | strayBreak
  | strayContinue
  | inputEnded (what : Text)
  | inputFailed (what : Text) (cause : String)
  | badInteger (word : Text)
  | badReal (word : Text)
  | flushFailed
  | writeFailed
  | noOpenScope (owner : Option Owner)
  | missingExpression
  | missingLiteral
  | emptyExpression
  | operandCount (operands operators : Nat)
  | unknownOperator (op : Text)
  | unknownPrimary (kind : Text)
  | unknownAssignment (op : Text)

namespace Fault

def kind : Fault → FaultKind
  | binaryUndefined .. | unaryUndefined .. | positionOf .. | fieldOf .. | subscriptOf ..
  | subscriptNotInteger .. | callOf .. => .typeMismatch
  | divisionByZero => .divisionByZero
  | duplicateKey _ => .keyConflict
  | undefinedVariable _ => .undefinedVariable
  | noPosition .. => .indexOutOfRange
  | noField _ => .keyNotFound
  | arity .. => .arityMismatch
  | tooManyCalls _ => .stackOverflow
  | conditionNotBoolean .. => .notBoolean
  | boundNotInteger .. => .rangeBoundNotInteger
  | strayBreak | strayContinue => .controlFlowEscape
  | inputEnded _ | inputFailed .. | badInteger _ | badReal _ | flushFailed => .inputError
  | writeFailed | noOpenScope _ | missingExpression | missingLiteral | emptyExpression
  | operandCount .. | unknownOperator _ | unknownPrimary _ | unknownAssignment _ => .internal

/-- The only reason for which output is refused. -/
def sinkFull : String := "sink full"

def message : Fault → Text
  | binaryUndefined op left right =>
    utf8 ("operator '" ++ op.spelling ++ "' is not defined for " ++ left.noun ++ " and " ++
      right.noun)
  | unaryUndefined op type =>
    utf8 "unary '" ++ op.text ++ utf8 ("' is not defined for " ++ type.noun)
  | divisionByZero => utf8 "integer division by zero"
  | duplicateKey name => utf8 "duplicate tuple key '" ++ name ++ utf8 "'"
  | undefinedVariable name => utf8 "undefined variable '" ++ name ++ utf8 "'"
  | noPosition position size =>
    utf8 "tuple index " ++ Integer.text position ++ utf8 " out of range 1.." ++ Text.ofNat size
  | noField name => utf8 "tuple has no field '" ++ name ++ utf8 "'"
  | positionOf position type =>
    utf8 "cannot access ." ++ Integer.text position ++ utf8 (" on " ++ type.noun)
  | fieldOf name type => utf8 "cannot access ." ++ name ++ utf8 (" on " ++ type.noun)
  | subscriptOf type => utf8 ("cannot subscript " ++ type.noun)
  | subscriptNotInteger type => utf8 ("array subscript must be int, got " ++ type.noun)
  | callOf type => utf8 ("cannot call a value of kind " ++ type.noun)
  | arity params arguments =>
    utf8 "function expects " ++ Text.ofNat params ++ utf8 " arguments, got " ++
      Text.ofNat arguments
  | tooManyCalls limit => utf8 "call depth exceeded " ++ Text.ofNat limit
  | conditionNotBoolean construct type =>
    utf8 (construct ++ " condition must be bool, got " ++ type.noun)
  | boundNotInteger which type => utf8 (which ++ " bound of range must be int, got " ++ type.noun)
  | strayBreak => utf8 "break outside of a loop"
  | strayContinue => utf8 "continue outside of a loop"
  | inputEnded what => utf8 "unexpected end of input reading " ++ what
  | inputFailed what cause => utf8 "reading " ++ what ++ utf8 (": " ++ cause)
  | badInteger word => utf8 "readInt: invalid integer " ++ word.quoted
  | badReal word => utf8 "readReal: invalid real " ++ word.quoted
  | flushFailed => utf8 ("flush output: " ++ sinkFull)
  | writeFailed => utf8 ("write output: " ++ sinkFull)
  | noOpenScope owner =>
    utf8 "no open scope for " ++ (match owner with
      | some o => o.text
      | none => utf8 "<global>")
  | missingExpression => utf8 "missing expression"
  | missingLiteral => utf8 "unsupported literal <nil>"
  | emptyExpression => utf8 "empty expression"
  | operandCount operands operators =>
    utf8 "expression has " ++ Text.ofNat operands ++ utf8 " operands and " ++
      Text.ofNat operators ++ utf8 " operators"
  | unknownOperator op => utf8 "unknown operator " ++ op.quoted
  | unknownPrimary kind => utf8 "unknown primary kind " ++ kind.quoted
  | unknownAssignment op => utf8 "unknown assignment operator " ++ op.quoted

/-- Class and wording, without a place. -/
def text (f : Fault) : Text := f.kind.name ++ utf8 ": " ++ f.message

end Fault

/-- A fault with the place of the node that failed and the call sites that led to it, innermost
first. -/
structure RuntimeError where
  fault : Fault
  span : Span
  calls : List Span

namespace RuntimeError

/-- A place, if there is one, before the class and the wording. -/
def line (span : Span) (kind message : Text) : Text :=
  (if span.isZero then [] else span.text ++ utf8 ": ") ++ kind ++ utf8 ": " ++ message

def text (e : RuntimeError) : Text := line e.span e.fault.kind.name e.fault.message

/-- At most this many call sites are recorded. -/
def maxCalls : Nat := 16

def leaveCall (e : RuntimeError) (site : Span) : RuntimeError :=
  if e.calls.length < maxCalls then { e with calls := e.calls ++ [site] } else e

end RuntimeError

end CellScript
