import ExprLang.Ssa.Printer

/-!
# Modules

A module declares functions and, one after the other, gets their bodies. Declarations keep
their order and never change; imported functions never get a body.
-/

namespace ExprLang.Ssa

structure Declaration where
  name : String
  prototype : Prototype
  linkage : Linkage
  body : Option Function
deriving DecidableEq, Repr

structure Module where
  name : String
  declarations : Array Declaration
deriving DecidableEq, Repr

inductive DeclareError where
  | prototype (name : String) (wanted existing : Prototype)
  | linkage (name : String) (wanted existing : Linkage)
deriving DecidableEq, Repr

def DeclareError.message : DeclareError → String
  | prototype name wanted existing =>
    "ssa: " ++ name ++ " redeclared as " ++ wanted.render ++ ", previously " ++ existing.render
  | linkage name wanted existing =>
    "ssa: " ++ name ++ " redeclared with " ++ wanted.render ++ " linkage, previously " ++
      existing.render

inductive StartError where
  | unknownId (id : FunctionId)
  | imported (name : String)
  | alreadyDefined (name : String)
deriving DecidableEq, Repr

def StartError.message : StartError → String
  | unknownId id => "ssa: unknown function id " ++ Text.decimal id.index
  | imported name => "ssa: cannot define imported function " ++ name
  | alreadyDefined name => "ssa: function " ++ name ++ " is already defined"

inductive FinishError (ε : Type) where
  | undefined (name : String)
  | noEmitter (module : String)
  | emitter (error : ε)
deriving Repr

namespace Module

def empty (name : String) : Module := ⟨name, #[]⟩

def declaration? (module : Module) (id : FunctionId) : Option Declaration :=
  module.declarations[id.index]?

def find? (module : Module) (name : String) : Option FunctionId :=
  (module.declarations.findIdx? fun declaration => declaration.name == name).map .mk

def body? (module : Module) (id : FunctionId) : Option Function :=
  (module.declaration? id).bind Declaration.body

/-- Declares a function. Declaring it once more in the same way gives the same number. -/
def declare (module : Module) (name : String) (prototype : Prototype) (linkage : Linkage) :
    Except DeclareError (FunctionId × Module) :=
  match module.find? name with
  | none =>
    .ok (⟨module.declarations.size⟩,
      { module with
        declarations := module.declarations.push ⟨name, prototype, linkage, none⟩ })
  | some id =>
    match module.declaration? id with
    | none => .ok (id, module)
    | some declaration =>
      if declaration.prototype ≠ prototype then
        .error (.prototype name prototype declaration.prototype)
      else if declaration.linkage ≠ linkage then
        .error (.linkage name linkage declaration.linkage)
      else .ok (id, module)

def startable (module : Module) (id : FunctionId) : Except StartError Declaration :=
  match module.declaration? id with
  | none => .error (.unknownId id)
  | some declaration =>
    if declaration.linkage = .imported then .error (.imported declaration.name)
    else if declaration.body.isSome then .error (.alreadyDefined declaration.name)
    else .ok declaration

def attach (module : Module) (id : FunctionId) (body : Function) : Module :=
  { module with
    declarations := module.declarations.modify id.index fun declaration =>
      { declaration with body := some body } }

def undefined? (module : Module) : Option String :=
  (module.declarations.find? fun declaration =>
    declaration.linkage ≠ .imported && declaration.body.isNone).map Declaration.name

def finish (module : Module) (emitter : Option (Module → Except ε α)) :
    Except (FinishError ε) α :=
  match module.undefined?, emitter with
  | some name, _ => .error (.undefined name)
  | none, none => .error (.noEmitter module.name)
  | none, some emit => (emit module).mapError .emitter

def renderDeclaration (declaration : Declaration) : String :=
  match declaration.body with
  | some body => declaration.linkage.render ++ " " ++ body.render
  | none =>
    declaration.linkage.render ++ " function %" ++ declaration.name ++
      declaration.prototype.render ++ "\n"

def render (module : Module) : String :=
  String.intercalate "\n" (module.declarations.toList.map renderDeclaration)

end Module

def FinishError.message (describe : ε → String) : FinishError ε → String
  | undefined name => "ssa: function " ++ name ++ " is declared but not defined"
  | noEmitter module => "ssa: module " ++ module ++ " has no object emitter"
  | emitter error => describe error

end ExprLang.Ssa
