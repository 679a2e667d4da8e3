import ExprLang.Proofs.Lowering.Origin
import ExprLang.Proofs.Ssa.Workspaces
import ExprLang.Proofs.Typing.Programs

/-!
# Modules of programs

A program that was checked and compiled has become a module, in which each of its definitions is
the origin of the function that has its name. All other functions are imported.
-/

namespace ExprLang

open Ssa

/-! ## Functions and their definitions -/

theorem Origin.supports {definitions : List TypedDefinition} {module : Module} {id : FunctionId}
    {body : Function} (origin : Origin definitions module id body) : module.Supports body := by
  refine ⟨origin.executable, fun external member => ?_⟩
  obtain ⟨_, known, declared, _, same⟩ := origin.external member
  exact ⟨known, declared, same⟩

theorem Origin.definition {definitions : List TypedDefinition} {module : Module} {id : FunctionId}
    {body : Function} (origin : Origin definitions module id body) :
    ∃ definition ∈ definitions, body.name = definition.name ∧
      body.prototype.parameters.length = definition.parameters.length := by
  obtain ⟨member, coherent, compiles, _, rfl, _, named, prototype, _, _, _⟩ := origin
  have grows := Moves.grows compiles.moves
  refine ⟨_, member, grows.name.trans named, ?_⟩
  rw [grows.prototype, ← coherent]
  change List.length (Declaration.prototype _).parameters = _
  rw [prototype, Compiler.prototype, List.length_map]

namespace Compiler

variable {compiler : Compiler} {functions : List TypedDefinition}

/-- What was taken is in the module, with a body. -/
theorem addAll_defines {all : List TypedDefinition} {later : Compiler}
    (regular : compiler.Regular all) (among : functions ⊆ all)
    (coherent : ∀ function ∈ functions, function.Coherent)
    (added : compiler.addAll functions = .ok later) :
    compiler.module.Precedes later.module ∧ ∀ function ∈ functions, ∃ id declaration,
      later.module.declaration? id = some declaration ∧ declaration.name = function.name ∧
        declaration.body.isSome = true := by
  induction functions generalizing compiler with
  | nil =>
      cases added
      exact ⟨.refl _, by simp⟩
  | cons function functions induction =>
      rw [List.forall_mem_cons] at coherent
      rw [addAll] at added
      split at added
      · cases added
      · rename_i middle first
        have regularThen := regular.add (among List.mem_cons_self) coherent.1 first
        obtain ⟨precedes, others⟩ := induction regularThen
          (fun _ member => among (List.mem_cons_of_mem _ member)) coherent.2 added
        obtain ⟨id, declaration, module, state, takes⟩ := takes_of_add first
        obtain ⟨-, named, -⟩ := takes.fresh regular.whole
        have attached := Module.precedes_attach takes.found takes.undefined state.builder.function
        have becomes : compiler.module.Precedes middle.module := by
          rw [takes.result]
          exact (Module.precedes_declare takes.declared).trans attached
        refine ⟨becomes.trans precedes, List.forall_mem_cons.mpr ⟨?_, others⟩⟩
        have there : middle.module.declaration? id =
            some { declaration with body := some state.builder.function } := by
          rw [takes.result, Module.declaration?_attach, if_pos rfl, takes.found]
          rfl
        obtain ⟨last, found, same⟩ := precedes id _ there
        refine ⟨id, last, found, same.name.trans named, ?_⟩
        rw [same.body _ rfl]
        rfl

end Compiler

/-! ## Programs -/

/-- A module has the functions of a program, each with the code of its definition, and imports. -/
structure Implements (module : Module) (definitions : List TypedDefinition) : Prop where
  wordy : module.Wordy
  distinct : module.Distinct
  whole : module.Whole
  origin : ∀ id body, module.body? id = some body → Origin definitions module id body
  defines : ∀ definition ∈ definitions, ∃ id declaration,
    module.declaration? id = some declaration ∧ declaration.name = definition.name ∧
      declaration.body.isSome = true
  named : (definitions.map TypedDefinition.name).Nodup

/-- The definitions of a checked program were checked one after the other. -/
theorem Definition.ChecksAll.sources {known : SignatureTable}
    {definitions : List (Definition Position)} {functions : List TypedDefinition}
    (checks : Definition.ChecksAll known definitions functions) :
    ∀ function ∈ functions, ∃ (known : SignatureTable) (source : Definition Position),
      source.check known = .ok function := by
  intro function member
  obtain ⟨before, after, rfl⟩ := List.append_of_mem member
  obtain ⟨definition, -, accepted⟩ := checks.checked
  exact ⟨_, definition, accepted⟩

theorem compileProgram_eq_ok {functions : List TypedDefinition} {name entry : String}
    {registry : Registry} {module : Module} :
    compileProgram name registry entry functions = .ok module ↔ ∃ first compiler,
      Compiler.start name registry entry = .ok first ∧ first.addAll functions = .ok compiler ∧
        compiler.module = module := by
  rw [compileProgram]
  cases Compiler.start name registry entry with
  | error failure => simp
  | ok first =>
      cases added : first.addAll functions with
      | error failure => simp [added, Except.map]
      | ok compiler => simp [added, Except.map]

theorem compileProgram_implements {known : SignatureTable}
    {definitions : List (Definition Position)} {functions : List TypedDefinition}
    {name entry : String} {registry : Registry} {module : Module}
    (checks : Definition.ChecksAll known definitions functions)
    (compiled : compileProgram name registry entry functions = .ok module) :
    Implements module functions := by
  have coherent : ∀ function ∈ functions, function.Coherent := by
    intro function member
    obtain ⟨known, source, accepted⟩ := checks.sources function member
    exact Definition.coherent_of_check accepted
  obtain ⟨first, compiler, started, added, rfl⟩ := compileProgram_eq_ok.mp compiled
  have regular := Compiler.regular_of_addAll checks.sources started added
  obtain ⟨-, defines⟩ := Compiler.addAll_defines (Compiler.Regular.start started)
    (List.Subset.refl functions) coherent added
  exact ⟨regular.wordy, regular.distinct, regular.whole, regular.origin, defines,
    checks.names_fresh.1⟩

/-- The code of a definition is in the module. -/
theorem Implements.definition {module : Module} {definitions : List TypedDefinition}
    (implements : Implements module definitions) {definition : TypedDefinition}
    (member : definition ∈ definitions) :
    ∃ id declaration body, module.declaration? id = some declaration ∧
      declaration.name = definition.name ∧ declaration.body = some body ∧
      Origin definitions module id body ∧
      declaration.prototype.parameters.length = definition.parameters.length := by
  obtain ⟨id, declaration, found, named, isSome⟩ := implements.defines definition member
  obtain ⟨body, code⟩ := Option.isSome_iff_exists.mp isSome
  have origin := implements.origin id body (by rw [Module.body?, found]; exact code)
  obtain ⟨_, foundThere, name, prototype⟩ := origin.declared
  cases found.symm.trans foundThere
  obtain ⟨other, there, same, count⟩ := origin.definition
  have equal := List.inj_on_of_nodup_map implements.named there member
    (same.symm.trans (name.symm.trans named))
  exact ⟨id, declaration, body, found, named, code, origin, by rw [prototype, count, equal]⟩

end ExprLang
