import ExprLang.Position
import ExprLang.Ssa.Builder
import ExprLang.Ty
import ExprLang.Typed.Tree

/-!
# Lowering expressions

Every value of the source language is one word: a truth value is zero or all ones, an array
is the address of a slot that holds its length and then its elements. Each parameter, binding
and loop variable becomes a variable of the builder, and a name stands for the variable that
was made for it last.
-/

/-!
## Lowering errors

Why a checked program has no code. Kinds of errors are numbered from one; a number without a
kind is kept as it is.
-/

namespace ExprLang

namespace LoweringError

inductive Kind where
  | unknownFunction
  | undefinedVariable
  | unsupportedType
  | backend
  | unsupportedOperation
  | unlisted (number : Int)
deriving DecidableEq, Repr

namespace Kind

def listed : List Kind :=
  [unknownFunction, undefinedVariable, unsupportedType, backend, unsupportedOperation]

def ofNumber (number : Int) : Kind :=
  if 1 ≤ number then listed.getD (number.toNat - 1) (unlisted number) else unlisted number

def name : Kind → String
  | unknownFunction => "UnknownFunctionReference"
  | undefinedVariable => "UndefinedVariableReference"
  | unsupportedType => "UnsupportedType"
  | backend => "BackendFailure"
  | unsupportedOperation => "UnsupportedOperation"
  | unlisted number => "ErrorKind(" ++ Text.signedDecimal number ++ ")"

end Kind

inductive Backend where
  | declare (error : Ssa.DeclareError)
  | start (error : Ssa.StartError)
  | define (error : Ssa.DefineError)
  | noResult
deriving DecidableEq, Repr

def Backend.message : Backend → String
  | declare error => error.message
  | start error => error.message
  | define error => error.message
  | noResult => "call produced no result"

inductive Cause where
  | unknownFunction (name : String)
  | undefinedVariable (name : String)
  | parameterType (name : String) (type : Ty)
  | nodeType (type : Ty)
  | backend (name : String) (failure : Backend)
  | unsupportedOperation (what : String)
deriving DecidableEq, Repr

namespace Cause

def kind : Cause → Kind
  | unknownFunction _ => .unknownFunction
  | undefinedVariable _ => .undefinedVariable
  | parameterType _ _ | nodeType _ => .unsupportedType
  | backend _ _ => .backend
  | unsupportedOperation _ => .unsupportedOperation

def name : Cause → String
  | unknownFunction name | undefinedVariable name | parameterType name _ | backend name _
  | unsupportedOperation name => name
  | nodeType _ => ""

def type : Cause → Ty
  | parameterType _ type | nodeType type => type
  | _ => .invalid

/-- What is wrong, in words. A parameter without a name is not mentioned. -/
def detail : Cause → String
  | unknownFunction name => "call to unknown function " ++ Text.quote name
  | undefinedVariable name => "reference to undefined variable " ++ Text.quote name
  | parameterType name type =>
    (if name == "" then "" else "parameter " ++ Text.quote name ++ ": ") ++ type.render ++
      " values cannot be compiled"
  | nodeType type => type.render ++ " values cannot be compiled"
  | backend _ failure => failure.message
  | unsupportedOperation what => "cannot compile " ++ what

end Cause

end LoweringError

structure LoweringError where
  function : String
  position : Position
  cause : LoweringError.Cause
deriving DecidableEq, Repr

def LoweringError.message (error : LoweringError) : String :=
  "codegen error in " ++ error.function ++ " at " ++ error.position.render ++ ": " ++
    error.cause.kind.name ++ ": " ++ error.cause.detail

end ExprLang

/-! ## Bodies -/

namespace ExprLang.Lowering

open Ssa

def wordSize : Nat := 8

def truthWord (value : Bool) : Int64 :=
  if value then -1 else 0

def condition : Comparison → Condition
  | .equal => .equal
  | .notEqual => .notEqual
  | .less => .less
  | .greater => .greater
  | .lessEqual => .lessEqual
  | .greaterEqual => .greaterEqual

structure Setting where
  function : String
  module : Module
  callable : List (String × FunctionId)

structure State where
  builder : Builder
  bound : List (String × Variable)
  variableCount : Nat
  references : List (String × Reference)

abbrev Lower := StateT State (Except LoweringError)

def build (step : Build α) : Lower α :=
  modifyGet fun state =>
    let (result, builder) := step.run state.builder
    (result, { state with builder })

/-- Fails because of an expression. -/
def blame (setting : Setting) (tree : Expr Typing) (cause : LoweringError.Cause) : Lower α :=
  throw ⟨setting.function, tree.position, cause⟩

def bindName (name : String) (value : Value) : Lower Unit := do
  let var : Variable := ⟨(← get).variableCount⟩
  build (Build.declareVariable var .i64)
  build (Build.defineVariable var value)
  modify fun state =>
    { state with
      bound := (name, var) :: state.bound
      variableCount := state.variableCount + 1 }

def reference (setting : Setting) (tree : Expr Typing) (name : String) : Lower Reference := do
  match (← get).references.lookup name, setting.callable.lookup name with
  | some found, _ => return found
  | none, none => blame setting tree (.unknownFunction name)
  | none, some id =>
    let found ← build (Build.importFunction setting.module id)
    modify fun state => { state with references := (name, found) :: state.references }
    return found

mutual

def expression (setting : Setting) (tree : Expr Typing) : Lower Value :=
  match tree with
  | .integer _ value => build (Build.constant .i64 value)
  | .boolean _ value => build (Build.constant .i64 (truthWord value))
  | .ident _ name => do
    match (← get).bound.lookup name with
    | some var => build (Build.useVariable var)
    | none => blame setting tree (.undefinedVariable name)
  | .binary _ operator left right => do
    let left ← expression setting left
    let right ← expression setting right
    match operator with
    | .comparison relation =>
      let bit ← build (Build.compare (condition relation) left right)
      build (Build.signExtend .i64 bit)
    | .arithmetic operation => build (Build.arithmetic operation left right)
    | .unknown symbol => blame setting tree (.unsupportedOperation ("operator " ++ symbol))
  | .bind _ name value => do
    let value ← expression setting value
    bindName name value
    return value
  | .sequence _ first second => do
    let _ ← expression setting first
    expression setting second
  | .call _ function arguments => do
    let target ← reference setting tree function
    let arguments ← expressions setting arguments
    match ← build (Build.call target arguments) with
    | result :: _ => return result
    | [] => blame setting tree (.backend function .noResult)
  | .conditional _ condition onTrue onFalse => do
    let test ← expression setting condition
    let trueBlock ← build Build.createBlock
    let falseBlock ← build Build.createBlock
    let merge ← build Build.createBlock
    let result ← build (Build.appendParameter merge .i64)
    build (Build.branch test ⟨trueBlock, []⟩ ⟨falseBlock, []⟩)
    build (Build.switchTo trueBlock)
    build (Build.sealBlock trueBlock)
    let trueValue ← expression setting onTrue
    build (Build.jump ⟨merge, [trueValue]⟩)
    build (Build.switchTo falseBlock)
    build (Build.sealBlock falseBlock)
    let falseValue ← expression setting onFalse
    build (Build.jump ⟨merge, [falseValue]⟩)
    build (Build.switchTo merge)
    build (Build.sealBlock merge)
    return result
  | .each _ name bound body => do
    let limit ← expression setting bound
    let header ← build Build.createBlock
    let loop ← build Build.createBlock
    let exit ← build Build.createBlock
    let counter ← build (Build.appendParameter header .i64)
    let round ← build (Build.appendParameter loop .i64)
    let one ← build (Build.constant .i64 1)
    build (Build.jump ⟨header, [one]⟩)
    build (Build.switchTo header)
    let done ← build (Build.compare .greater counter limit)
    build (Build.branch done ⟨exit, []⟩ ⟨loop, [counter]⟩)
    build (Build.switchTo loop)
    build (Build.sealBlock loop)
    bindName name round
    let _ ← expression setting body
    let next ← build (Build.arithmetic .add round one)
    build (Build.jump ⟨header, [next]⟩)
    build (Build.switchTo exit)
    build (Build.sealBlock header)
    build (Build.sealBlock exit)
    build (Build.constant .i64 0)
  | .array _ elements => do
    let slot ← build (Build.createSlot (UInt32.ofNat (wordSize * (elements.length + 1))))
    let length ← build (Build.constant .i64 (Int64.ofNat elements.length))
    build (Build.slotStore length slot 0)
    storeElements setting slot 1 elements
    build (Build.slotAddress slot 0)
  | .index _ target position => do
    let base ← expression setting target
    let index ← expression setting position
    let one ← build (Build.constant .i64 1)
    let word ← build (Build.constant .i64 (Int64.ofNat wordSize))
    let place ← build (Build.arithmetic .add index one)
    let offset ← build (Build.arithmetic .multiply place word)
    let address ← build (Build.arithmetic .add base offset)
    build (Build.load .i64 address 0)
  | .length _ target => do
    let base ← expression setting target
    build (Build.load .i64 base 0)
  | .unknown _ kind _ => blame setting tree (.unsupportedOperation ("node " ++ kind))

def expressions (setting : Setting) (trees : List (Expr Typing)) : Lower (List Value) :=
  match trees with
  | [] => return []
  | tree :: trees => do
    let value ← expression setting tree
    let values ← expressions setting trees
    return value :: values

def storeElements (setting : Setting) (slot : Slot) (index : Nat)
    (trees : List (Expr Typing)) : Lower Unit :=
  match trees with
  | [] => return
  | tree :: trees => do
    let value ← expression setting tree
    build (Build.slotStore value slot (Int32.ofNat (wordSize * index)))
    storeElements setting slot (index + 1) trees

end

def bindParameters : List TypedParameter → List Value → Lower Unit
  | parameter :: parameters, value :: values => do
    bindName parameter.name value
    bindParameters parameters values
  | _, _ => return

def body (setting : Setting) (definition : TypedDefinition) : Lower Unit := do
  let entry ← build Build.createBlock
  build (Build.appendFunctionParameters entry)
  build (Build.switchTo entry)
  build (Build.sealBlock entry)
  bindParameters definition.parameters (← build (Build.parameters entry))
  let result ← expression setting definition.body
  build (Build.ret [result])
  build Build.sealAll

end ExprLang.Lowering
