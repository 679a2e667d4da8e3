import ExprLang.SignatureTable
import ExprLang.Typed.Error
import ExprLang.Typed.Tree

/-!
# Checking types

Every function body has one flat scope. It is handed through the body from left to right:
a binding and a loop variable are known to everything that is looked at later, also outside
of the branch or loop that they stand in. The scope that was reached is part of the answer
even if checking fails.
-/

namespace ExprLang

structure Scope where
  bindings : List (String × Ty)
deriving DecidableEq, Repr, Inhabited

namespace Scope

def empty : Scope := ⟨[]⟩

def find? (scope : Scope) (name : String) : Option Ty :=
  scope.bindings.lookup name

def bindIn (name : String) (type : Ty) : List (String × Ty) → List (String × Ty)
  | [] => [(name, type)]
  | (other, old) :: rest =>
    if other == name then (name, type) :: rest else (other, old) :: bindIn name type rest

def bind (scope : Scope) (name : String) (type : Ty) : Scope :=
  ⟨bindIn name type scope.bindings⟩

/-- The scope at the start of a function; of two parameters of one name the later counts. -/
def ofParameters (parameters : List Parameter) : Scope :=
  parameters.foldl (fun scope parameter => scope.bind parameter.name parameter.type) empty

end Scope

/-- What is known around an expression: the function it stands in and the functions that it
may call. -/
structure Surroundings where
  function : String
  known : SignatureTable
deriving Repr

abbrev Check := ExceptT TypeError (StateM Scope)

namespace Check

def bind (name : String) (type : Ty) : Check Unit :=
  modify fun scope => scope.bind name type

end Check

namespace Surroundings

/-- Fails because of an expression. -/
def blame [Placed α] (around : Surroundings) (tree : Expr α) (cause : TypeError.Cause) :
    Check β :=
  throw ⟨around.function, Placed.position tree.note, Placed.form tree, cause⟩

end Surroundings

namespace Expr

variable {α : Type} [Placed α]

mutual

def infer (around : Surroundings) (tree : Expr α) : Check (Expr Typing) :=
  match tree with
  | integer note value => return .integer ⟨Placed.position note, .int⟩ value
  | boolean note value => return .boolean ⟨Placed.position note, .bool⟩ value
  | ident note name => do
    match (← get).find? name with
    | some type => return .ident ⟨Placed.position note, type⟩ name
    | none => around.blame tree (.undefinedVariable name)
  | array note elements => do
    match ← inferElements around none 0 elements with
    | [] => around.blame tree .emptyArray
    | first :: others => return .array ⟨Placed.position note, .array first.type⟩ (first :: others)
  | binary note operator left right => do
    let left ← left.infer around
    let right ← right.infer around
    let result ←
      match operator with
      | .arithmetic _ => pure left.type
      | .comparison _ => pure .bool
      | .unknown symbol => around.blame tree (.unsupported ("operator " ++ symbol))
    if left.type = right.type then return .binary ⟨Placed.position note, result⟩ operator left right
    else around.blame tree (.operands operator.symbol left.type right.type)
  | bind note name value => do
    let value ← value.infer around
    Check.bind name value.type
    return .bind ⟨Placed.position note, value.type⟩ name value
  | sequence note first second => do
    let first ← first.infer around
    let second ← second.infer around
    return .sequence ⟨Placed.position note, second.type⟩ first second
  | call note function arguments => do
    match around.known.find? function with
    | none => around.blame tree (.undefinedFunction function)
    | some signature =>
      if arguments.length = signature.parameters.length then
        let arguments ← inferArguments around function signature.parameters 0 arguments
        return .call ⟨Placed.position note, signature.result⟩ function arguments
      else
        around.blame tree
          (.argumentCount function signature.parameters.length arguments.length)
  | conditional note condition onTrue onFalse => do
    let test ← condition.infer around
    if test.type = .bool then
      let onTrue ← onTrue.infer around
      let onFalse ← onFalse.infer around
      if onTrue.type = onFalse.type then
        return .conditional ⟨Placed.position note, onTrue.type⟩ test onTrue onFalse
      else around.blame tree (.branches onTrue.type onFalse.type)
    else around.blame condition (.condition test.type)
  | index note target position => do
    let base ← target.infer around
    if base.type.isArray then
      let offset ← position.infer around
      if offset.type = .int then return .index ⟨Placed.position note, base.type.element⟩ base offset
      else around.blame position (.index offset.type)
    else around.blame target (.indexTarget base.type)
  | length note target => do
    let base ← target.infer around
    if base.type.isArray then return .length ⟨Placed.position note, .int⟩ base
    else around.blame target (.lengthTarget base.type)
  | each note name bound body => do
    let limit ← bound.infer around
    if limit.type = .int then
      Check.bind name .int
      let body ← body.infer around
      return .each ⟨Placed.position note, .int⟩ name limit body
    else around.blame bound (.loopBound limit.type)
  | unknown _ kind _ => around.blame tree (.unsupported ("node " ++ kind))

/-- Finds the types of array elements. The first element decides on the type that all others
must have. -/
def inferElements (around : Surroundings) (expected : Option Ty) (index : Nat)
    (trees : List (Expr α)) : Check (List (Expr Typing)) :=
  match trees with
  | [] => return []
  | tree :: trees => do
    let element ← tree.infer around
    let wanted := expected.getD element.type
    if element.type = wanted then
      return element :: (← inferElements around (some wanted) (index + 1) trees)
    else around.blame tree (.element index wanted element.type)

def inferArguments (around : Surroundings) (function : String) (expected : List Ty)
    (index : Nat) (trees : List (Expr α)) : Check (List (Expr Typing)) :=
  match trees with
  | [] => return []
  | tree :: trees => do
    let argument ← tree.infer around
    let wanted := expected.headD .invalid
    if argument.type = wanted then
      return argument ::
        (← inferArguments around function expected.tail (index + 1) trees)
    else around.blame tree (.argumentType function index wanted argument.type)

end

/-- Checks an expression that stands alone in a scope, and answers with the scope that it
leaves. -/
def check (known : SignatureTable) (scope : Scope) (tree : Expr α) :
    Except TypeError (Expr Typing) × Scope :=
  (tree.infer ⟨"<expr>", known⟩).run scope

end Expr

namespace Definition

variable {α : Type} [Placed α]

def check (known : SignatureTable) (definition : Definition α) :
    Except TypeError TypedDefinition :=
  if (known.find? definition.name).isSome then
    .error ⟨definition.name, definition.position, "", .duplicateFunction definition.name⟩
  else
    let scope := Scope.ofParameters definition.parameters
    match ((definition.body.infer ⟨definition.name, known⟩).run scope).1 with
    | .error error => .error error
    | .ok body =>
      .ok {
        name := definition.name
        parameters := definition.parameters.map fun parameter =>
          ⟨parameter.name, parameter.type⟩
        signature := ⟨definition.parameters.map Parameter.type, body.type⟩
        body
        position := definition.position }

/-- Checks definitions one after the other, each against the functions known before it, up to
the first that fails. The table that was reached is the second component of the answer. -/
def checkAll (known : SignatureTable) :
    List (Definition α) → Except TypeError (List TypedDefinition) × SignatureTable
  | [] => (.ok [], known)
  | definition :: definitions =>
    match definition.check known with
    | .error error => (.error error, known)
    | .ok typed =>
      let (result, final) := checkAll (known.push typed.name typed.signature) definitions
      (result.map (typed :: ·), final)

end Definition

end ExprLang
