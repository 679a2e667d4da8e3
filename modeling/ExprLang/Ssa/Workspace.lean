import ExprLang.Ssa.Builder

/-!
# Workspaces

A workspace is a module together with the builders at work on it. A body that was made by a
builder stays connected with it: what is done to the builder later shows in the module.
-/

namespace ExprLang.Ssa

/-- A module, its builders in the order of their start, and for each function that has a body
the number of the builder that made it. -/
structure Workspace where
  module : Module
  builders : Array Builder
  makers : List (FunctionId × Nat)

namespace Workspace

def empty (name : String) : Workspace := ⟨.empty name, #[], []⟩

def builder? (workspace : Workspace) (number : Nat) : Option Builder :=
  workspace.builders[number]?

def declare (workspace : Workspace) (name : String) (prototype : Prototype)
    (linkage : Linkage) : Except DeclareError (FunctionId × Workspace) :=
  (workspace.module.declare name prototype linkage).map fun (id, module) =>
    (id, { workspace with module })

def build (workspace : Workspace) (id : FunctionId) : Except StartError (Nat × Workspace) :=
  (workspace.module.build id).map fun builder =>
    (workspace.builders.size, { workspace with builders := workspace.builders.push builder })

def define (workspace : Workspace) (id : FunctionId) (number : Option Nat) :
    Except DefineError Workspace :=
  (workspace.module.define id (number.bind workspace.builder?)).map fun module =>
    { workspace with
      module
      makers := number.toList.map (fun number => (id, number)) ++ workspace.makers }

def setBuilder (workspace : Workspace) (number : Nat) (builder : Builder) : Workspace :=
  { workspace with
    builders := workspace.builders.setIfInBounds number builder
    module :=
      if workspace.makers.lookup builder.id = some number then
        workspace.module.attach builder.id builder.function
      else workspace.module }

def perform (workspace : Workspace) (number : Nat) (step : Build α) :
    Option (α × Workspace) :=
  (workspace.builder? number).map fun builder =>
    let (result, builder) := step.run builder
    (result, workspace.setBuilder number builder)

end Workspace

end ExprLang.Ssa
