import ExprLang.Position
import ExprLang.Text.Quoted
import ExprLang.Ty

/-!
# Type errors

Why a program has no types. Kinds of errors are numbered from one; a number without a kind is
kept as it is.
-/

namespace ExprLang

namespace TypeError

inductive Kind where
  | undefinedVariable
  | undefinedFunction
  | argumentCount
  | argumentType
  | condition
  | branches
  | indexTarget
  | index
  | emptyArray
  | element
  | operands
  | lengthTarget
  | loopBound
  | duplicateFunction
  | unsupported
  | unlisted (number : Int)
deriving DecidableEq, Repr

namespace Kind

def listed : List Kind :=
  [undefinedVariable, undefinedFunction, argumentCount, argumentType, condition, branches,
   indexTarget, index, emptyArray, element, operands, lengthTarget, loopBound,
   duplicateFunction, unsupported]

def ofNumber (number : Int) : Kind :=
  if 1 ≤ number then listed.getD (number.toNat - 1) (unlisted number) else unlisted number

def name : Kind → String
  | undefinedVariable => "UndefinedVariable"
  | undefinedFunction => "UndefinedFunction"
  | argumentCount => "ArgumentCountMismatch"
  | argumentType => "ArgumentTypeMismatch"
  | condition => "NonBooleanCondition"
  | branches => "BranchTypeMismatch"
  | indexTarget => "IndexTargetNotArray"
  | index => "IndexNotInteger"
  | emptyArray => "EmptyArrayTypeInference"
  | element => "ArrayElementTypeMismatch"
  | operands => "TypeMismatch"
  | lengthTarget => "LenTargetNotArray"
  | loopBound => "LoopBoundNotInteger"
  | duplicateFunction => "DuplicateFunction"
  | unsupported => "UnsupportedNode"
  | unlisted number => "ErrorKind(" ++ Text.signedDecimal number ++ ")"

end Kind

inductive Cause where
  | undefinedVariable (name : String)
  | undefinedFunction (name : String)
  | argumentCount (function : String) (expected actual : Nat)
  | argumentType (function : String) (place : Nat) (expected actual : Ty)
  | condition (actual : Ty)
  | branches (onTrue onFalse : Ty)
  | indexTarget (actual : Ty)
  | index (actual : Ty)
  | emptyArray
  | element (place : Nat) (expected actual : Ty)
  | operands (operator : String) (left right : Ty)
  | lengthTarget (actual : Ty)
  | loopBound (actual : Ty)
  | duplicateFunction (name : String)
  | unsupported (what : String)
  | unlisted (number : Int) (name : String)
deriving DecidableEq, Repr

namespace Cause

def kind : Cause → Kind
  | undefinedVariable _ => .undefinedVariable
  | undefinedFunction _ => .undefinedFunction
  | argumentCount _ _ _ => .argumentCount
  | argumentType _ _ _ _ => .argumentType
  | condition _ => .condition
  | branches _ _ => .branches
  | indexTarget _ => .indexTarget
  | index _ => .index
  | emptyArray => .emptyArray
  | element _ _ _ => .element
  | operands _ _ _ => .operands
  | lengthTarget _ => .lengthTarget
  | loopBound _ => .loopBound
  | duplicateFunction _ => .duplicateFunction
  | unsupported _ => .unsupported
  | unlisted number _ => .unlisted number

def blank (name : String) : Kind → Cause
  | .undefinedVariable => undefinedVariable name
  | .undefinedFunction => undefinedFunction name
  | .argumentCount => argumentCount name 0 0
  | .argumentType => argumentType name 0 .invalid .invalid
  | .condition => condition .invalid
  | .branches => branches .invalid .invalid
  | .indexTarget => indexTarget .invalid
  | .index => index .invalid
  | .emptyArray => emptyArray
  | .element => element 0 .invalid .invalid
  | .operands => operands name .invalid .invalid
  | .lengthTarget => lengthTarget .invalid
  | .loopBound => loopBound .invalid
  | .duplicateFunction => duplicateFunction name
  | .unsupported => unsupported name
  | .unlisted number => unlisted number name

def name : Cause → String
  | undefinedVariable name | undefinedFunction name | argumentCount name _ _
  | argumentType name _ _ _ | operands name _ _ | duplicateFunction name | unsupported name
  | unlisted _ name => name
  | _ => ""

def expected : Cause → Ty
  | argumentType _ _ expected _ | branches expected _ | element _ expected _
  | operands _ expected _ => expected
  | condition _ => .bool
  | index _ | loopBound _ => .int
  | _ => .invalid

def actual : Cause → Ty
  | argumentType _ _ _ actual | condition actual | branches _ actual | indexTarget actual
  | index actual | element _ _ actual | operands _ _ actual | lengthTarget actual
  | loopBound actual => actual
  | _ => .invalid

def counts : Cause → Nat × Nat
  | argumentCount _ expected actual => (expected, actual)
  | _ => (0, 0)

def argument : Cause → Nat
  | argumentType _ place _ _ | element place _ _ => place
  | _ => 0

/-- What is wrong, in words; `node` is the form of the offending expression. -/
def detail (node : String) : Cause → String
  | undefinedVariable name => "undefined variable " ++ Text.quote name
  | undefinedFunction name => "undefined function " ++ Text.quote name
  | argumentCount function expected actual =>
    function ++ " expects " ++ Text.decimal expected ++ " arguments, got " ++
      Text.decimal actual
  | argumentType function place expected actual =>
    "argument " ++ Text.decimal (place + 1) ++ " of " ++ function ++ ": expected " ++
      expected.render ++ ", got " ++ actual.render
  | condition actual => "condition must be Bool, got " ++ actual.render
  | branches onTrue onFalse =>
    "then branch is " ++ onTrue.render ++ " but else branch is " ++ onFalse.render
  | indexTarget actual => "cannot index " ++ actual.render
  | index actual => "index must be Int, got " ++ actual.render
  | emptyArray => "cannot infer the element type of an empty array"
  | element place expected actual =>
    "array element " ++ Text.decimal place ++ ": expected " ++ expected.render ++ ", got " ++
      actual.render
  | operands operator left right =>
    "operands of " ++ operator ++ " differ: " ++ left.render ++ " and " ++ right.render
  | lengthTarget actual => "len needs an array, got " ++ actual.render
  | loopBound actual => "loop bound must be Int, got " ++ actual.render
  | duplicateFunction name => "function " ++ Text.quote name ++ " is already defined"
  | unsupported what => "cannot check " ++ what
  | unlisted _ _ => node

end Cause

end TypeError

structure TypeError where
  function : String
  position : Position
  node : String
  cause : TypeError.Cause
deriving DecidableEq, Repr

def TypeError.message (error : TypeError) : String :=
  "type error in " ++ error.function ++ " at " ++ error.position.render ++ ": " ++
    error.cause.kind.name ++ ": " ++ error.cause.detail error.node

end ExprLang
