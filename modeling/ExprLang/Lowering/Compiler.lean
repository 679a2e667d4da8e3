import ExprLang.Builtin
import ExprLang.Lowering.Body

/-!
# Compiling programs

A compiler fills a module. It first declares the built-in functions as imports and then takes
one definition after the other; a function may call those that were compiled before it. The
entry function is the only one that others can see.
-/

namespace ExprLang

open Ssa

/-- A module that is being filled, and the functions that can be called so far. -/
structure Compiler where
  module : Module
  entry : String
  callable : List (String × FunctionId)

structure CompileFailure where
  error : LoweringError
  module : Module

namespace Compiler

def defaultEntry : String := "main"

def prototype (signature : Signature) : Prototype :=
  ⟨signature.parameters.map fun _ => .i64, [.i64]⟩

def declareBuiltins (compiler : Compiler) : Registry → Except CompileFailure Compiler
  | [] => .ok compiler
  | builtin :: rest =>
    match compiler.module.declare builtin.name (prototype builtin.signature) .imported with
    | .error error =>
      .error ⟨⟨builtin.name, Position.unknown, .backend builtin.name (.declare error)⟩,
        compiler.module⟩
    | .ok (id, module) =>
      declareBuiltins
        { compiler with module, callable := (builtin.name, id) :: compiler.callable } rest

def start (name : String) (registry : Registry) (entry : String) :
    Except CompileFailure Compiler :=
  declareBuiltins ⟨.empty name, if entry == "" then defaultEntry else entry, []⟩ registry

def linkage (compiler : Compiler) (name : String) : Linkage :=
  if name == compiler.entry then .exported else .internal

def unsupported? (definition : TypedDefinition) : Option LoweringError :=
  match definition.parameters.find? fun parameter => parameter.type.contains .float with
  | some parameter =>
    some ⟨definition.name, definition.position, .parameterType parameter.name parameter.type⟩
  | none =>
    match definition.typings.find? fun note => note.type.contains .float with
    | some note => some ⟨definition.name, note.position, .nodeType note.type⟩
    | none => none

def add (compiler : Compiler) (definition : TypedDefinition) :
    Except CompileFailure Compiler :=
  let name := definition.name
  let failed (module : Module) (failure : LoweringError.Backend) :
      Except CompileFailure Compiler :=
    .error ⟨⟨name, definition.position, .backend name failure⟩, module⟩
  match unsupported? definition with
  | some error => .error ⟨error, compiler.module⟩
  | none =>
    match compiler.module.declare name (prototype definition.signature)
        (compiler.linkage name) with
    | .error error => failed compiler.module (.declare error)
    | .ok (id, module) =>
      match module.build id with
      | .error error => failed module (.start error)
      | .ok builder =>
        let setting : Lowering.Setting := ⟨name, module, compiler.callable⟩
        match (Lowering.body setting definition).run ⟨builder, [], 0, []⟩ with
        | .error error => .error ⟨error, module⟩
        | .ok ((), state) =>
          match module.define id (some state.builder) with
          | .error error => failed module (.define error)
          | .ok module =>
            .ok { compiler with module, callable := (name, id) :: compiler.callable }

/-- Compiles definitions one after the other, up to the first that fails. -/
def addAll (compiler : Compiler) :
    List TypedDefinition → Except CompileFailure Compiler
  | [] => .ok compiler
  | definition :: definitions =>
    match compiler.add definition with
    | .error failure => .error failure
    | .ok compiler => compiler.addAll definitions

end Compiler

def compileProgram (name : String) (registry : Registry) (entry : String)
    (definitions : List TypedDefinition) : Except CompileFailure Module :=
  match Compiler.start name registry entry with
  | .error failure => .error failure
  | .ok compiler => (compiler.addAll definitions).map Compiler.module

end ExprLang
