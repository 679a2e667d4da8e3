import ExprLang.Emission
import ExprLang.Proofs.Lowering.Acceptance
import ExprLang.Proofs.Lowering.Programs
import ExprLang.Proofs.Lowering.Suitability
import ExprLang.Proofs.Typing.Closure

/-!
# Checked programs compile

Main statement: a checked program is compiled unless a function has a parameter with floats, and
then the first such function is what the error is about. Nothing else that can go wrong while code
is generated does go wrong behind the checker.
-/

namespace ExprLang

open Ssa

/-! ## Modules -/

namespace Ssa.Module

variable {module : Module} {id : FunctionId} {name other : String} {wanted : Prototype}
  {linkage : Linkage}

theorem find?_eq_none_iff : module.find? name = none ↔
    ∀ id declaration, module.declaration? id = some declaration → declaration.name ≠ name := by
  constructor
  · exact fun absent id declaration found => find?_eq_none absent found
  · intro different
    cases found : module.find? name with
    | none => rfl
    | some id =>
        obtain ⟨declaration, there, same⟩ := find?_eq_some found
        exact absurd same (different id declaration there)

theorem find?_push_eq_none (absent : module.find? name = none) (declaration : Declaration)
    (different : declaration.name ≠ name) :
    ({ module with declarations := module.declarations.push declaration } : Module).find? name =
      none := by
  rw [find?_eq_none_iff]
  intro id known found
  rw [declaration?_push] at found
  split at found
  · cases found
    exact different
  · exact find?_eq_none absent found

theorem find?_attach_eq_none (absent : module.find? name = none) (body : Function) :
    (module.attach id body).find? name = none := by
  rw [find?_eq_none_iff]
  intro place known found
  rw [declaration?_attach] at found
  split at found
  · obtain ⟨old, there, rfl⟩ := Option.map_eq_some_iff.mp found
    exact fun same => find?_eq_none absent there same
  · exact find?_eq_none absent found

theorem Whole.undefined?_eq_none (whole : module.Whole) : module.undefined? = none := by
  rw [undefined?_eq_none_iff]
  intro id declaration found own
  rw [Option.isSome_iff_ne_none]
  exact fun empty => own ((whole id declaration found).mpr empty)

theorem build_of_empty {declaration : Declaration}
    (found : module.declaration? id = some declaration) (linked : declaration.linkage ≠ .imported)
    (empty : declaration.body = none) :
    module.build id = .ok (Builder.start id declaration) := by
  rw [build, startable, found]
  simp [linked, empty, Except.map]

/-- A body is taken by a function that has none if it is accepted. -/
theorem define_of_accepted {declaration : Declaration} {builder : Builder}
    (found : module.declaration? id = some declaration) (empty : declaration.body = none)
    (owned : builder.id = id) (accepted : builder.finalize = .ok ()) :
    module.define id (some builder) = .ok (module.attach id builder.function) := by
  have free : module.body? id = none := by
    rw [body?, found]
    exact empty
  rw [define, if_neg (by simpa using owned), if_neg (by simp [free]), accepted]

end Ssa.Module

/-! ## Compilers that keep up with the checker -/

namespace Compiler

variable {known : SignatureTable} {compiler later : Compiler} {name : String}
  {signature : Signature} {definition : Definition Position} {typed : TypedDefinition}

/-- What the checker knows can be called, and names that it does not know are not taken. -/
structure Follows (known : SignatureTable) (compiler : Compiler) : Prop where
  names : ∀ name, known.find? name = none → compiler.module.find? name = none
  answers : ∀ name signature, known.find? name = some signature →
    ∃ id declaration, compiler.callable.lookup name = some id ∧
      compiler.module.declaration? id = some declaration ∧
      declaration.prototype.parameters.length = signature.parameters.length

namespace Follows

theorem arity (follows : compiler.Follows known) {module : Module}
    (precedes : compiler.module.Precedes module) (function : String) :
    Lowering.Answers (Lowering.Setting.arity ⟨function, module, compiler.callable⟩) known := by
  intro name signature found
  obtain ⟨id, declaration, callable, declared, count⟩ := follows.answers name signature found
  obtain ⟨becomes, foundThen, same⟩ := precedes id declaration declared
  simp [Lowering.Setting.arity, callable, foundThen, same.prototype, count]

/-- A function gets known to both. -/
theorem extend (follows : compiler.Follows known) (fresh : known.find? name = none)
    {module : Module} {id : FunctionId} {declaration : Declaration}
    (precedes : compiler.module.Precedes module)
    (names : ∀ other, other ≠ name → compiler.module.find? other = none →
      module.find? other = none)
    (found : module.declaration? id = some declaration)
    (count : declaration.prototype.parameters.length = signature.parameters.length) :
    Follows (known.push name signature)
      { compiler with module, callable := (name, id) :: compiler.callable } where
  names other absent := by
    rw [SignatureTable.find?_push, Option.or_eq_none_iff] at absent
    obtain ⟨absent, different⟩ := absent
    exact names other (by simpa using different) (follows.names other absent)
  answers other wanted answered := by
    rw [SignatureTable.find?_push, Option.or_eq_some_iff] at answered
    rcases answered with old | ⟨-, new⟩
    · obtain ⟨place, known, callable, declared, same⟩ := follows.answers other wanted old
      obtain ⟨becomes, foundThen, still⟩ := precedes place known declared
      have different : (other == name) = false := by
        refine beq_eq_false_iff_ne.mpr ?_
        rintro rfl
        rw [fresh] at old
        cases old
      exact ⟨place, becomes, by simpa [List.lookup_cons, different] using callable, foundThen,
        by rw [still.prototype, same]⟩
    · split at new
      · rename_i same
        cases new
        exact ⟨id, declaration, by simp [same], found, count⟩
      · cases new

end Follows

theorem declare_fresh {module : Module} {wanted : Prototype} {linkage : Linkage}
    (absent : module.find? name = none) : module.declare name wanted linkage =
      .ok (⟨module.declarations.size⟩, { module with
        declarations := module.declarations.push ⟨name, wanted, linkage, none⟩ }) := by
  rw [Module.declare, absent]

theorem Follows.declare (follows : compiler.Follows known) (fresh : known.find? name = none)
    (linkage : Linkage) : ∃ id module declaration,
      compiler.module.declare name (prototype signature) linkage = .ok (id, module) ∧
        module.declaration? id = some declaration ∧
        declaration = ⟨name, prototype signature, linkage, none⟩ ∧
        ∀ other, other ≠ name → compiler.module.find? other = none →
          module.find? other = none := by
  refine ⟨_, _, _, declare_fresh (follows.names name fresh), ?_, rfl, ?_⟩
  · rw [Module.declaration?_push, if_pos rfl]
  · intro other different absent
    exact Module.find?_push_eq_none absent _ (Ne.symm different)

theorem declareBuiltins_follows {registry : Registry} (follows : compiler.Follows known)
    (distinct : (known.names ++ registry.names).Nodup) :
    ∃ later, compiler.declareBuiltins registry = .ok later ∧
      later.Follows ⟨known.entries ++ registry.entries⟩ := by
  induction registry generalizing compiler known with
  | nil => exact ⟨compiler, rfl, by simpa [Registry.entries] using follows⟩
  | cons builtin registry induction =>
      have fresh : known.find? builtin.name = none := by
        rw [SignatureTable.find?_eq_none_iff]
        intro member
        have apart := (List.nodup_append.mp distinct).2.2 builtin.name member builtin.name
        exact apart (by simp [Registry.names]) rfl
      obtain ⟨id, module, declaration, declared, found, rfl, names⟩ :=
        @Follows.declare known compiler builtin.name builtin.signature follows fresh .imported
      have extended := @Follows.extend known compiler builtin.name builtin.signature follows fresh
        module id _ (Module.precedes_declare declared) names found (by simp [prototype])
      obtain ⟨later, rest, reached⟩ := induction extended (by
        simpa [SignatureTable.names, SignatureTable.push, Registry.names] using distinct)
      refine ⟨later, ?_, ?_⟩
      · rw [declareBuiltins, declared]
        exact rest
      · simpa [SignatureTable.push, Registry.entries] using reached

theorem start_follows (name entry : String) :
    ∃ compiler, Compiler.start name .standard entry = .ok compiler ∧
      compiler.Follows .standard := by
  have empty : Follows .empty ⟨.empty name, if entry == "" then defaultEntry else entry, []⟩ := by
    refine ⟨fun other _ => ?_, fun other signature found => ?_⟩
    · simp [Module.find?, Module.empty]
    · cases found
  exact declareBuiltins_follows empty (by decide)

/-- The body of a checked definition whose arrays are short can be lowered. -/
theorem Follows.suited (follows : compiler.Follows known) {module : Module}
    (precedes : compiler.module.Precedes module) (name : String)
    (elaborates : definition.Elaborates known typed)
    (short : typed.body.ArraysBelow Lowering.arrayLimit) :
    Lowering.Suited (Lowering.Setting.arity ⟨name, module, compiler.callable⟩)
      typed.parameterNames typed.body := by
  have covers : Lowering.Covers typed.parameterNames definition.inputs := by
    have all := Lowering.Covers.none.bindAll
      (definition.parameters.map fun parameter => (parameter.name, parameter.type))
    simpa [TypedDefinition.parameterNames, elaborates.parameters, Definition.inputs,
      Function.comp_def] using all
  exact (Lowering.suited_of_types (follows.arity precedes name)
    (Types.of_map typed.body elaborates.annotated.types) covers short).1

/-- A checked definition that is supported and whose arrays are short is taken. -/
theorem Follows.add {definitions : List TypedDefinition} (follows : compiler.Follows known)
    (regular : compiler.Regular definitions) (checked : definition.check known = .ok typed)
    (supported : unsupported? typed = none)
    (short : typed.body.ArraysBelow Lowering.arrayLimit) :
    ∃ later, compiler.add typed = .ok later ∧
      later.Follows (known.push typed.name typed.signature) := by
  have elaborates := Definition.elaborates_of_check checked
  have coherent := Definition.coherent_of_check checked
  have fresh : known.find? typed.name = none := by
    rw [elaborates.name]
    exact elaborates.fresh
  obtain ⟨id, module, declaration, declared, found, shape, names⟩ :=
    @Follows.declare known compiler typed.name typed.signature follows fresh
      (compiler.linkage typed.name)
  have linked : declaration.linkage ≠ .imported := by
    rw [shape, linkage]
    split <;> simp
  have empty : declaration.body = none := by rw [shape]
  have wants : declaration.prototype = prototype typed.signature := by rw [shape]
  have built := Module.build_of_empty found linked empty
  have precedes := Module.precedes_declare declared
  have wordy : module.Wordy := regular.wordy.declare (by simp [prototype]) rfl declared
  obtain ⟨words, one⟩ := wordy id declaration found
  let setting : Lowering.Setting := ⟨typed.name, module, compiler.callable⟩
  have count : declaration.prototype.parameters = typed.parameters.map fun _ => .i64 := by
    rw [wants, prototype]
    simp only [List.map_const']
    rw [coherent]
  have meets := @Lowering.Meets.body setting wordy.uniform typed id declaration count
  have suited : Lowering.Suited setting.arity typed.parameterNames typed.body :=
    follows.suited precedes typed.name elaborates short
  obtain ⟨⟨⟩, state, lowered, clean⟩ := meets.1 suited
  obtain ⟨last, rfl, bound, inner, result, cleanLast, compiles⟩ := meets.2 () state lowered clean
  have accepted := compiles.accepted wordy words one cleanLast
  have defined : module.define id (some last.state.builder) =
      .ok (module.attach id last.state.builder.function) :=
    Module.define_of_accepted found empty (Moves.grows compiles.moves).id accepted
  refine ⟨{ compiler with
    module := module.attach id last.state.builder.function
    callable := (typed.name, id) :: compiler.callable }, ?_, ?_⟩
  · rw [Compiler.add, supported]
    dsimp only
    rw [declared]
    dsimp only
    rw [built]
    dsimp only
    rw [show (Lowering.body setting typed).run ⟨Builder.start id declaration, [], 0, []⟩ =
      .ok ((), last.state) from lowered]
    dsimp only
    rw [defined]
  · have attached := Module.precedes_attach found empty last.state.builder.function
    obtain ⟨becomes, there, same⟩ := attached id declaration found
    refine follows.extend fresh (precedes.trans attached) (fun other different absent => ?_)
      there ?_
    · exact Module.find?_attach_eq_none (names other different absent) _
    · rw [same.prototype, wants]
      simp [prototype]

end Compiler

/-! ## Programs without floats -/

def TypedDefinition.Floatless (function : TypedDefinition) : Prop :=
  ∀ parameter ∈ function.parameters, parameter.type.Floatless

namespace TypedDefinition.Floatless

variable {known : SignatureTable} {definition : Definition Position} {function : TypedDefinition}

theorem of_check (floatless : function.Floatless) (checked : definition.check known = .ok function)
    (table : known.Floatless) :
    Compiler.unsupported? function = none ∧ function.signature.result.Floatless := by
  have elaborates := Definition.elaborates_of_check checked
  have inputs : definition.inputs.Floatless := by
    refine Variables.All.bindAll (fun _ _ found => by cases found) ?_
    intro binding member
    obtain ⟨parameter, given, rfl⟩ := List.mem_map.mp member
    refine floatless ⟨parameter.name, parameter.type⟩ ?_
    rw [elaborates.parameters]
    exact List.mem_map_of_mem given
  have parameters : (function.parameters.find? fun parameter =>
      parameter.type.contains .float) = none :=
    List.find?_eq_none.mpr fun parameter member =>
      Bool.eq_false_iff.mp (floatless parameter member)
  have notes : (function.typings.find? fun note => note.type.contains .float) = none := by
    rw [elaborates.typings]
    exact List.find?_eq_none.mpr fun note member =>
      Bool.eq_false_iff.mp
        (elaborates.annotated.notes_all Ty.closed_floatless table inputs note member)
  refine ⟨?_, ?_⟩
  · rw [Compiler.unsupported?, parameters]
    dsimp only
    rw [notes]
  · rw [elaborates.gives]
    exact (elaborates.annotated.types.all Ty.closed_floatless table inputs).1

theorem not_iff : ¬ function.Floatless ↔ ∃ parameter, (function.parameters.find? fun parameter =>
    parameter.type.contains .float) = some parameter := by
  rw [← Option.isSome_iff_exists, List.find?_isSome]
  simp [Floatless, Ty.Floatless]

end TypedDefinition.Floatless

namespace Compiler

variable {known : SignatureTable} {compiler : Compiler} {definitions : List (Definition Position)}
  {functions : List TypedDefinition}

/-- The first function that has a parameter with floats is the reason why code is not generated. -/
structure Blames (functions : List TypedDefinition) (error : LoweringError) : Prop where
  first : ∃ before function after parameter, functions = before ++ function :: after ∧
    (∀ earlier ∈ before, earlier.Floatless) ∧
    (function.parameters.find? fun parameter => parameter.type.contains .float) =
      some parameter ∧
    error = ⟨function.name, function.position, .parameterType parameter.name parameter.type⟩

theorem Blames.cons {function : TypedDefinition} {error : LoweringError}
    (blames : Blames functions error) (floatless : function.Floatless) :
    Blames (function :: functions) error := by
  obtain ⟨before, culprit, after, parameter, rfl, earlier, found, same⟩ := blames
  exact ⟨function :: before, culprit, after, parameter, rfl,
    List.forall_mem_cons.mpr ⟨floatless, earlier⟩, found, same⟩

theorem Blames.of_append_singleton {last : TypedDefinition} {error : LoweringError}
    (blames : Blames (functions ++ [last]) error) (none : last.parameters = []) :
    Blames functions error := by
  obtain ⟨before, culprit, after, parameter, split, earlier, found, same⟩ := blames
  cases after using List.reverseRecOn with
  | nil =>
      obtain ⟨-, rfl⟩ := List.append_singleton_inj.mp split
      rw [none] at found
      cases found
  | append_singleton after _ =>
      rw [← List.cons_append, ← List.append_assoc] at split
      obtain ⟨rfl, -⟩ := List.append_singleton_inj.mp split
      exact ⟨before, culprit, after, parameter, rfl, earlier, found, same⟩

/-- Checked functions are taken up to the first one that has a parameter with floats. -/
theorem addAll_cases {all : List TypedDefinition}
    (checks : Definition.ChecksAll known definitions functions) (follows : compiler.Follows known)
    (regular : compiler.Regular all) (among : functions ⊆ all) (table : known.Floatless)
    (short : ∀ function ∈ functions, function.body.ArraysBelow Lowering.arrayLimit) :
    ((∃ later, compiler.addAll functions = .ok later) ∧
        ∀ function ∈ functions, function.Floatless) ∨
      ∃ failure, compiler.addAll functions = .error failure ∧ Blames functions failure.error := by
  induction checks generalizing compiler with
  | nil => exact .inl ⟨⟨compiler, rfl⟩, by simp⟩
  | @cons known definition definitions function functions head tail induction =>
      rw [List.forall_mem_cons] at short
      by_cases floatless : function.Floatless
      · obtain ⟨supported, result⟩ := floatless.of_check head table
        obtain ⟨later, added, followsThen⟩ := follows.add regular head supported short.1
        have regularThen := regular.add (among List.mem_cons_self)
          (Definition.coherent_of_check head) added
        rw [addAll, added]
        dsimp only
        obtain ⟨accepted, others⟩ | ⟨failure, failed, blames⟩ := induction followsThen regularThen
          (fun _ member => among (List.mem_cons_of_mem _ member)) (table.push result) short.2
        · exact .inl ⟨accepted, List.forall_mem_cons.mpr ⟨floatless, others⟩⟩
        · exact .inr ⟨failure, failed, blames.cons floatless⟩
      · obtain ⟨parameter, found⟩ := TypedDefinition.Floatless.not_iff.mp floatless
        refine .inr ⟨⟨⟨function.name, function.position,
          .parameterType parameter.name parameter.type⟩, compiler.module⟩, ?_,
          [], function, functions, parameter, rfl, by simp, found, rfl⟩
        rw [addAll, add, unsupported?, found]

end Compiler

section Programs

variable {definitions : List (Definition Position)} {functions : List TypedDefinition}

/-- A checked program is compiled, or the first function that has a parameter with floats is the
reason why not. -/
theorem compileProgram_cases (name entry : String)
    (checks : Definition.ChecksAll .standard definitions functions)
    (short : ∀ function ∈ functions, function.body.ArraysBelow Lowering.arrayLimit) :
    ((∃ module, compileProgram name .standard entry functions = .ok module) ∧
        ∀ function ∈ functions, function.Floatless) ∨
      ∃ failure, compileProgram name .standard entry functions = .error failure ∧
        Compiler.Blames functions failure.error := by
  obtain ⟨first, started, follows⟩ := Compiler.start_follows name entry
  rw [compileProgram, started]
  dsimp only
  obtain ⟨⟨later, added⟩, floatless⟩ | ⟨failure, failed, blames⟩ := Compiler.addAll_cases checks
    follows (Compiler.Regular.start started) (List.Subset.refl functions)
    (SignatureTable.all_standard rfl) short
  · exact .inl ⟨⟨later.module, by rw [added]; rfl⟩, floatless⟩
  · exact .inr ⟨failure, by rw [failed]; rfl, blames⟩

/-- Every function of a compiled module has a body, and so the module can be written out. -/
theorem compileProgram_defines {name entry : String} {module : Module}
    (checks : Definition.ChecksAll .standard definitions functions)
    (compiled : compileProgram name .standard entry functions = .ok module) :
    (∀ function ∈ functions, ∃ id declaration, module.declaration? id = some declaration ∧
        declaration.name = function.name ∧ declaration.body.isSome = true) ∧
      module.Whole :=
  have implements := compileProgram_implements checks compiled
  ⟨implements.defines, implements.whole⟩

end Programs

/-- A checked program whose array literals are not too long is compiled if and only if none of its
functions has a parameter with floats. Then all of its functions have a body, and the module can be
written out. Otherwise the error is about the first function with such a parameter. -/
theorem checked_programs_compile (name entry : String) (definitions : List (Definition Position))
    (functions : List TypedDefinition)
    (checked : (Definition.checkAll .standard definitions).1 = .ok functions)
    (short : ∀ definition ∈ definitions, definition.body.ArraysBelow (2 ^ 28)) :
    ((∃ module, compileProgram name .standard entry functions = .ok module) ↔
      ∀ function ∈ functions, ∀ parameter ∈ function.parameters,
        parameter.type.contains .float = false) ∧
    (∀ module, compileProgram name .standard entry functions = .ok module →
      (∀ function ∈ functions, ∃ id declaration, module.declaration? id = some declaration ∧
        declaration.name = function.name ∧ declaration.body.isSome = true) ∧
      (∀ declaration ∈ module.declarations, declaration.linkage ≠ .imported →
        declaration.body.isSome = true) ∧
      TextFormat.finish (some .ssa) module = .ok module.render) ∧
    ∀ failure, compileProgram name .standard entry functions = .error failure →
      failure.error.cause.kind = .unsupportedType ∧
      ∃ before function after parameter, functions = before ++ function :: after ∧
        (∀ earlier ∈ before, ∀ parameter ∈ earlier.parameters,
          parameter.type.contains .float = false) ∧
        (function.parameters.find? fun parameter => parameter.type.contains .float) =
          some parameter ∧
        failure.error =
          ⟨function.name, function.position, .parameterType parameter.name parameter.type⟩ := by
  obtain ⟨checks, -⟩ := Definition.checkAll_eq_ok_iff.mp (Prod.ext checked rfl)
  have cases := compileProgram_cases name entry checks fun function member => by
    obtain ⟨before, after, rfl⟩ := List.append_of_mem member
    obtain ⟨definition, origin, accepted⟩ := checks.checked
    have body := (Definition.elaborates_of_check accepted).body
    exact (Expr.ArraysBelow.of_map (body ▸ short definition origin)).mono (by decide)
  refine ⟨⟨?_, ?_⟩, fun module compiled => ?_, fun failure failed => ?_⟩
  · rintro ⟨module, compiled⟩
    obtain ⟨-, floatless⟩ | ⟨failure, failed, -⟩ := cases
    · exact floatless
    · rw [compiled] at failed
      cases failed
  · intro floatless
    obtain ⟨compiled, -⟩ | ⟨failure, -, blames⟩ := cases
    · exact compiled
    · obtain ⟨before, function, after, parameter, rfl, -, found, -⟩ := blames
      exact absurd (floatless function (by simp))
        (TypedDefinition.Floatless.not_iff.mpr ⟨parameter, found⟩)
  · obtain ⟨defines, whole⟩ := compileProgram_defines checks compiled
    refine ⟨defines, fun declaration member linked => ?_, ?_⟩
    · obtain ⟨index, inside, rfl⟩ := Array.mem_iff_getElem.mp member
      have fate := whole ⟨index⟩ _ (Array.getElem?_eq_getElem inside)
      exact Option.isSome_iff_ne_none.mpr fun none => linked (fate.mpr none)
    · simp only [TextFormat.finish, Module.finish, whole.undefined?_eq_none, Option.map_some]
      rfl
  · obtain ⟨⟨module, compiled⟩, -⟩ | ⟨other, failedSo, blames⟩ := cases
    · rw [compiled] at failed
      cases failed
    · cases failed.symm.trans failedSo
      obtain ⟨before, function, after, parameter, split, earlier, found, same⟩ := blames
      exact ⟨by rw [same]; rfl, before, function, after, parameter, split, earlier, found, same⟩

theorem checked_programs_compile_boundedSum : ∃ functions,
    (Definition.checkAll .standard [boundedSum]).1 = .ok functions ∧
      (∀ definition ∈ [boundedSum], definition.body.ArraysBelow (2 ^ 28)) ∧
      ((∃ module, compileProgram "sums" .standard "sum" functions = .ok module) ↔
        ∀ function ∈ functions, ∀ parameter ∈ function.parameters,
          parameter.type.contains .float = false) := by
  have short : ∀ definition ∈ [boundedSum], definition.body.ArraysBelow (2 ^ 28) := by
    simp [boundedSum, Expr.ArraysBelow]
  have checked : ((Definition.checkAll .standard [boundedSum]).1.toOption).isSome = true := by
    decide +kernel
  obtain ⟨functions, checked⟩ := Option.isSome_iff_exists.mp checked
  have checked := eq_ok_of_toOption checked
  exact ⟨functions, checked, short,
    (checked_programs_compile "sums" "sum" [boundedSum] functions checked short).1⟩

end ExprLang
