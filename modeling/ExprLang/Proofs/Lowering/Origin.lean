import ExprLang.Proofs.Lowering.Idiom
import ExprLang.Proofs.Ssa.Equipment

/-!
# Where compiled functions come from

Every function that has a body in a compiled module was lowered from one of the definitions, at a
time at which the module had the functions that come before it, and it can call only those.
-/

namespace ExprLang

open Ssa

/-! ## Modules that are filled -/

namespace Ssa

namespace Module

variable {module later : Module} {id : FunctionId} {name : String} {wanted : Prototype}
  {linkage : Linkage}

def Whole (module : Module) : Prop :=
  ∀ id declaration, module.declaration? id = some declaration →
    (declaration.linkage = .imported ↔ declaration.body = none)

theorem Wordy.declare (wordy : module.Wordy) (parameters : ∀ type ∈ wanted.parameters, type = .i64)
    (results : wanted.results = [.i64])
    (declared : module.declare name wanted linkage = .ok (id, later)) : later.Wordy := by
  rcases declare_eq_ok declared with ⟨_, _, rfl⟩ | ⟨_, rfl, _⟩
  · intro other declaration found
    rw [declaration?_push] at found
    split at found
    · cases found
      exact ⟨parameters, results⟩
    · exact wordy other declaration found
  · exact wordy

theorem Wordy.attach (wordy : module.Wordy) (body : Function) :
    (module.attach id body).Wordy := by
  intro other declaration found
  rw [declaration?_attach] at found
  split at found
  · obtain ⟨old, known, rfl⟩ := Option.map_eq_some_iff.mp found
    exact wordy id old known
  · exact wordy other declaration found

theorem Wordy.uniform (wordy : module.Wordy) : module.Uniform :=
  fun id declaration found => (wordy id declaration found).2

end Module

end Ssa

/-! ## Origins -/

/-- A function of a module was lowered from one of some definitions, with a part of the module
that has the functions which can be called, all of which come before it. -/
inductive Origin (definitions : List TypedDefinition) (module : Module) (id : FunctionId)
    (body : Function) : Prop
  | intro {setting : Lowering.Setting} {definition : TypedDefinition} {declaration : Declaration}
      {bound lowered last : Lowering.Stage} {result : Value}
      (member : definition ∈ definitions)
      (coherent : definition.Coherent)
      (compiles : Lowering.Compiles setting definition id declaration bound lowered result last)
      (accepted : last.recording.builder.finalize = .ok ())
      (same : body = last.recording.builder.function)
      (found : setting.module.declaration? id = some declaration)
      (named : declaration.name = definition.name)
      (prototype : declaration.prototype = Compiler.prototype definition.signature)
      (wordy : setting.module.Wordy)
      (precedes : setting.module.Precedes module)
      (callable : ∀ name other, setting.callable.lookup name = some other →
        other.index < id.index ∧ ∃ known, setting.module.declaration? other = some known ∧
          known.name = name) :
      Origin definitions module id body

theorem Origin.mono {definitions : List TypedDefinition} {module later : Module}
    {id : FunctionId} {body : Function} (origin : Origin definitions module id body)
    (precedes : module.Precedes later) : Origin definitions later id body := by
  obtain ⟨member, coherent, compiles, accepted, same, found, named, prototype, wordy, before,
    callable⟩ := origin
  exact ⟨member, coherent, compiles, accepted, same, found, named, prototype, wordy,
    before.trans precedes, callable⟩

/-! ## What a compiled function refers to -/

namespace Lowering

def Setting.Offers (setting : Setting) (external : External) : Prop :=
  ∃ name declaration, setting.callable.lookup name = some external.id ∧
    setting.module.declaration? external.id = some declaration ∧
      external.name = declaration.name ∧ external.prototype = declaration.prototype

def Stage.Offered (setting : Setting) (stage : Stage) : Prop :=
  ∀ external ∈ stage.recording.builder.function.references, setting.Offers external

section Offers

variable {setting : Setting} {first last : Stage}

theorem Does.offered {deeds : List Deed} (does : Does deeds first last)
    (plain : deeds.all Deed.isLocal = true) (offered : first.Offered setting) :
    last.Offered setting := by
  intro external member
  rw [(sameTables_of_performsAll does.performs plain).references] at member
  exact offered external member

theorem Binds.offered {name : String} {value : Value} (binds : Binds name value first last)
    (offered : first.Offered setting) : last.Offered setting := by
  intro external member
  rcases binds.performs.mem_references member with old | new
  · exact offered external old
  · simp at new

theorem Refers.offered {name : String} {reference : Reference}
    (refers : Refers setting name first reference last) (offered : first.Offered setting) :
    last.Offered setting := by
  cases refers with
  | known | again => exact offered
  | @new id declaration fresh callable unknown declared =>
      intro external member
      rcases Array.mem_push.mp member with old | rfl
      · exact offered external old
      · exact ⟨name, declaration, callable, declared, rfl, rfl⟩

theorem Forks.offered {test result : Value} (forks : Forks test first result last)
    (offered : first.Offered setting) : last.Offered setting := by
  obtain ⟨creates, merges, branches⟩ := forks
  exact branches.offered rfl (merges.offered rfl (creates.offered rfl offered))

theorem Enters.offered {limit round one : Value} (enters : Enters limit first round one last)
    (offered : first.Offered setting) : last.Offered setting := by
  obtain ⟨creates, counts, rounds, starts, jumps, compares, branches⟩ := enters
  exact branches.offered rfl (compares.offered rfl (jumps.offered rfl (starts.offered rfl
    (rounds.offered rfl (counts.offered rfl (creates.offered rfl offered))))))

theorem Lowers.offered {work : Work} {values : List Value}
    (lowers : Lowers setting work first values last) (offered : first.Offered setting) :
    last.Offered setting := by
  induction lowers with
  | integer emits | boolean emits => exact emits.offered rfl offered
  | ident _ uses => exact uses.offered rfl offered
  | comparison _ _ compares widens left right =>
      exact widens.offered rfl (compares.offered rfl (right (left offered)))
  | arithmetic _ _ emits left right => exact emits.offered rfl (right (left offered))
  | bind _ binds inner => exact binds.offered (inner offered)
  | sequence _ _ left right => exact right (left offered)
  | call refers _ emits arguments =>
      exact emits.offered rfl (arguments (refers.offered offered))
  | conditional _ forks _ turns _ joins test left right =>
      have turned := turns.offered rfl (left (forks.offered (test offered)))
      exact joins.offered rfl (right turned)
  | each _ enters binds _ advances leaves emits bound body =>
      have filled := body (binds.offered (enters.offered (bound offered)))
      exact emits.offered rfl (leaves.offered rfl (advances.offered rfl filled))
  | array reserves counts starts _ locates elements =>
      have started := starts.offered rfl (counts.offered rfl (reserves.offered rfl offered))
      exact locates.offered rfl (elements started)
  | index _ _ ones words places scales locates loads target position =>
      have placed := places.offered rfl (words.offered rfl (ones.offered rfl
        (position (target offered))))
      exact loads.offered rfl (locates.offered rfl (scales.offered rfl placed))
  | length _ loads target => exact loads.offered rfl (target offered)
  | nil | stop => exact offered
  | cons _ _ head tail => exact tail (head offered)
  | store _ stores _ head tail => exact tail (stores.offered rfl (head offered))

theorem BindsAll.offered {names : List String} {values : List Value}
    (binds : BindsAll names values first last) (offered : first.Offered setting) :
    last.Offered setting := by
  induction binds with
  | nil => exact offered
  | cons binds _ induction => exact induction (binds.offered offered)

theorem Compiles.offered {definition : TypedDefinition} {id : FunctionId}
    {declaration : Declaration} {bound lowered : Stage} {result : Value}
    (compiles : Compiles setting definition id declaration bound lowered result last) :
    last.Offered setting := by
  obtain ⟨binds, lowers, returns⟩ := compiles
  refine returns.offered rfl (lowers.offered (binds.offered fun external member => ?_))
  have plain : (Stage.opening declaration).all Deed.isLocal = true := by
    simp [Stage.opening, Deed.isLocal]
  have same := sameTables_of_performsAll (Stage.performs_opened id declaration) plain
  rw [same.references] at member
  simp [Recording.start, History.start, Builder.start, Function.start] at member

end Offers

end Lowering

namespace Origin

variable {definitions : List TypedDefinition} {module : Module} {id : FunctionId}
  {body : Function}

theorem dominated (origin : Origin definitions module id body) : body.Dominated := by
  obtain ⟨_, _, compiles, accepted, rfl, _⟩ := origin
  exact compiles.dominated accepted

theorem idiomatic (origin : Origin definitions module id body) : body.Idiomatic := by
  obtain ⟨_, _, compiles, _, rfl, found, _, _, wordy, _⟩ := origin
  exact compiles.idiomatic wordy (wordy _ _ found).1

theorem stray (origin : Origin definitions module id body) {label : Label}
    {instruction : Instruction} (member : instruction ∈ (body.block label).instructions) :
    instruction.stray = [] := by
  obtain ⟨_, _, compiles, _, rfl, _⟩ := origin
  exact compiles.sound.stray member

theorem executable (origin : Origin definitions module id body) : body.Executable := by
  obtain ⟨_, _, compiles, accepted, rfl, _⟩ := origin
  have finished := compiles.finished accepted
  exact ((Recording.Equipped.start _ _).moves compiles.moves).executable compiles.sound
    finished.verified

theorem entry (origin : Origin definitions module id body) :
    body.entry? = some Lowering.firstBlock := by
  obtain ⟨_, _, compiles, _, rfl, _⟩ := origin
  exact compiles.entry

/-- A function is called by its name and with its prototype, and it comes before the functions
that call it. -/
theorem external (origin : Origin definitions module id body) {external : External}
    (member : external ∈ body.references) :
    external.id.index < id.index ∧ ∃ declaration,
      module.declaration? external.id = some declaration ∧
        declaration.name = external.name ∧ declaration.prototype = external.prototype := by
  obtain ⟨_, _, compiles, _, rfl, _, _, _, _, precedes, callable⟩ := origin
  obtain ⟨name, declaration, listed, found, named, typed⟩ := compiles.offered external member
  obtain ⟨becomes, foundThen, same⟩ := precedes _ _ found
  exact ⟨(callable name _ listed).1, becomes, foundThen, same.name.trans named.symm,
    same.prototype.trans typed.symm⟩

theorem declared (origin : Origin definitions module id body) :
    ∃ declaration, module.declaration? id = some declaration ∧
      declaration.name = body.name ∧ declaration.prototype = body.prototype := by
  obtain ⟨_, _, compiles, _, rfl, found, _, _, _, precedes, _⟩ := origin
  obtain ⟨becomes, foundThen, same⟩ := precedes _ _ found
  have grows := Moves.grows compiles.moves
  exact ⟨becomes, foundThen, same.name.trans grows.name.symm,
    same.prototype.trans grows.prototype.symm⟩

end Origin

/-- A function as lowering makes it: definitions come before uses, the verifier accepts it, every
instruction finds what it names and names no blocks that it does not follow, and the code is
idiomatic. -/
structure Ssa.Function.Lowered (function : Ssa.Function) (entry : Label) : Prop where
  dominated : function.Dominated
  verified : function.Verified entry
  equipped : ∀ label, ∀ instruction ∈ (function.block label).instructions,
    instruction.Equipped function
  stray : ∀ label, ∀ instruction ∈ (function.block label).instructions, instruction.stray = []
  idiomatic : function.Idiomatic

theorem Origin.lowered {definitions : List TypedDefinition} {module : Module} {id : FunctionId}
    {body : Ssa.Function} (origin : Origin definitions module id body) :
    body.Lowered Lowering.firstBlock := by
  obtain ⟨entry, verified⟩ := origin.executable.verified
  have same := verified.first.symm.trans origin.entry
  cases same
  exact ⟨origin.dominated, verified, origin.executable.equipped, fun _ _ => origin.stray,
    origin.idiomatic⟩

namespace Compiler

/-- A compiler whose functions come from some definitions. -/
structure Regular (definitions : List TypedDefinition) (compiler : Compiler) : Prop where
  wordy : compiler.module.Wordy
  distinct : compiler.module.Distinct
  whole : compiler.module.Whole
  callable : ∀ name id, compiler.callable.lookup name = some id →
    ∃ declaration, compiler.module.declaration? id = some declaration ∧ declaration.name = name
  origin : ∀ id body, compiler.module.body? id = some body →
    Origin definitions compiler.module id body

variable {definitions : List TypedDefinition} {compiler later : Compiler}

/-- What can be called is known by its name when a function was declared. -/
theorem callable_declare {module : Module} {name : String} {wanted : Prototype}
    {linkage : Linkage} {id : FunctionId}
    (callable : ∀ name id, compiler.callable.lookup name = some id →
      ∃ declaration, compiler.module.declaration? id = some declaration ∧
        declaration.name = name)
    (declared : compiler.module.declare name wanted linkage = .ok (id, module)) :
    ∀ other place, compiler.callable.lookup other = some place →
      ∃ declaration, module.declaration? place = some declaration ∧
        declaration.name = other := by
  intro other place known
  obtain ⟨declaration, found, rfl⟩ := callable other place known
  obtain ⟨later, foundLater, becomes⟩ := Module.precedes_declare declared place declaration found
  exact ⟨later, foundLater, becomes.name⟩

theorem declaration_declare {module later : Module} {name : String} {wanted : Prototype}
    {linkage : Linkage} {id : FunctionId}
    (declared : module.declare name wanted linkage = .ok (id, later)) :
    ∃ declaration, later.declaration? id = some declaration ∧ declaration.name = name := by
  rcases Module.declare_eq_ok declared with ⟨_, rfl, rfl⟩ | ⟨found, rfl, _⟩
  · exact ⟨_, by rw [Module.declaration?_push, if_pos rfl], rfl⟩
  · exact Module.find?_eq_some found

/-- A new definition becomes a new function. -/
theorem Takes.fresh {definition : TypedDefinition} {id : FunctionId} {declaration : Declaration}
    {module : Module} {state : Lowering.State} (whole : compiler.module.Whole)
    (takes : compiler.Takes definition id declaration module state later) :
    id = ⟨compiler.module.declarations.size⟩ ∧ declaration.name = definition.name ∧
      module = { compiler.module with
        declarations := compiler.module.declarations.push ⟨definition.name,
          prototype definition.signature, compiler.linkage definition.name, none⟩ } := by
  have found := takes.found
  rcases Module.declare_eq_ok takes.declared with ⟨_, rfl, rfl⟩ | ⟨_, rfl, _⟩
  · rw [Module.declaration?_push, if_pos rfl] at found
    cases found
    exact ⟨rfl, rfl, rfl⟩
  · exact absurd ((whole id declaration found).mpr takes.undefined) takes.unlinked

namespace Regular

theorem start {name entry : String} {registry : Registry}
    (started : Compiler.start name registry entry = .ok compiler) :
    compiler.Regular definitions := by
  refine (declareBuiltins_keeps (motive := fun compiler => compiler.Regular definitions ∧
    ∀ id, compiler.module.body? id = none) ?_ ?_ started).1
  · rintro before builtin id module ⟨regular, empty⟩ declared
    have absent : ∀ other, module.body? other = none := by
      intro other
      cases body : module.body? other with
      | none => rfl
      | some code =>
          have old := Module.body?_declare declared body
          rw [empty] at old
          cases old
    refine ⟨⟨regular.wordy.declare (by simp [prototype]) rfl declared,
      regular.distinct.declare declared, ?_, ?_, ?_⟩, absent⟩
    · rcases Module.declare_eq_ok declared with ⟨_, _, rfl⟩ | ⟨_, rfl, _⟩
      · intro other declaration found
        rw [Module.declaration?_push] at found
        split at found
        · cases found
          simp
        · exact regular.whole other declaration found
      · exact regular.whole
    · intro other place known
      rw [List.lookup_cons] at known
      split at known
      · rename_i same
        cases known
        rw [eq_of_beq same]
        exact declaration_declare declared
      · exact callable_declare regular.callable declared other place known
    · intro other body found
      rw [absent] at found
      cases found
  · have nothing : ∀ id, (Module.empty name).declaration? id = none := by
      simp [Module.declaration?, Module.empty]
    refine ⟨⟨fun id declaration found => ?_, fun id other declaration known found => ?_,
      fun id declaration found => ?_, fun name id known => ?_, fun id body found => ?_⟩,
      fun id => ?_⟩
    · rw [nothing] at found
      cases found
    · rw [nothing] at found
      cases found
    · rw [nothing] at found
      cases found
    · cases known
    · rw [Module.body?, nothing] at found
      cases found
    · rw [Module.body?, nothing]
      rfl

theorem add {definition : TypedDefinition} (regular : compiler.Regular definitions)
    (member : definition ∈ definitions) (coherent : definition.Coherent)
    (added : compiler.add definition = .ok later) : later.Regular definitions := by
  obtain ⟨id, declaration, module, state, takes⟩ := takes_of_add added
  obtain ⟨bound, lowered, result, last, same, compiles⟩ :=
    takes.compiles regular.wordy.uniform coherent
  obtain ⟨new, named, pushed⟩ := takes.fresh regular.whole
  have wordy := regular.wordy.declare (by simp [prototype]) rfl takes.declared
  have before := Module.precedes_declare takes.declared
  have after := Module.precedes_attach takes.found takes.undefined
    last.recording.builder.function
  have known := callable_declare regular.callable takes.declared
  have accepted := takes.accepted
  have code : state.builder.function = last.recording.builder.function := by
    rw [same]
    rfl
  rw [same] at accepted
  rw [takes.result, code]
  refine ⟨wordy.attach _, (regular.distinct.declare takes.declared).attach _, ?_, ?_, ?_⟩
  · intro other declared found
    rw [Module.declaration?_attach] at found
    split at found
    · rw [takes.found] at found
      cases found
      simp [takes.unlinked]
    · rename_i different
      rw [pushed, Module.declaration?_push, if_neg] at found
      · exact regular.whole other declared found
      · rw [new] at different
        intro equal
        exact different (congrArg FunctionId.mk equal)
  · intro name place listed
    rw [List.lookup_cons] at listed
    split at listed
    · rename_i equal
      cases listed
      obtain ⟨late, found, becomes⟩ := after id declaration takes.found
      exact ⟨late, found, becomes.name.trans (named.trans (eq_of_beq equal).symm)⟩
    · obtain ⟨early, found, rfl⟩ := known name place listed
      obtain ⟨late, foundLate, becomes⟩ := after place early found
      exact ⟨late, foundLate, becomes.name⟩
  · intro other body found
    by_cases here : other = id
    · subst here
      have own : body = last.recording.builder.function := by
        rw [Module.body?, Module.declaration?_attach, if_pos rfl, takes.found] at found
        exact (Option.some.inj found).symm
      exact .intro member coherent compiles accepted own takes.found named takes.prototype_eq wordy
        after fun name place listed => by
          obtain ⟨early, foundEarly, _⟩ := regular.callable name place listed
          have inside : place.index < compiler.module.declarations.size :=
            (Array.getElem?_eq_some_iff.mp foundEarly).1
          exact ⟨by rw [new]; exact inside, known name place listed⟩
    · rw [Module.body?, Module.declaration?_attach, if_neg here] at found
      exact (regular.origin other body (Module.body?_declare takes.declared found)).mono
        (before.trans after)

end Regular

theorem regular_of_addAll {name entry : String} {registry : Registry} {first : Compiler}
    (checked : ∀ definition ∈ definitions, ∃ (known : SignatureTable)
      (source : Definition Position), source.check known = .ok definition)
    (started : Compiler.start name registry entry = .ok first)
    (added : first.addAll definitions = .ok compiler) : compiler.Regular definitions := by
  refine addAll_keeps (fun before later definition member regular added => ?_)
    (Regular.start started) added
  obtain ⟨known, source, typed⟩ := checked definition member
  exact regular.add member (Definition.coherent_of_check typed) added

end Compiler

end ExprLang
