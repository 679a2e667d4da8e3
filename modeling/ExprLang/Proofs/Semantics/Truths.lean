import ExprLang.Proofs.Lowering.Truths
import ExprLang.Proofs.Semantics.Programs
import ExprLang.Proofs.Ssa.Truthfulness
import ExprLang.Proofs.Typing.Closure
import ExprLang.Proofs.Typing.Registration

/-!
# Truths of compiled programs

The signatures of a program promise truths where they say `Bool`. If arithmetic is done on numbers
only and no truth is taken out of an array, the compiled functions keep these promises. Main
statement: in all activations, at every point of a run, whatever stands for something of type
`Bool` is zero or has all its bits set.
-/

namespace ExprLang

open Ssa

/-! ## What signatures promise -/

def TypedDefinition.promises (functions : List TypedDefinition) : Promises where
  takes name index := ∃ function ∈ functions, function.name = name ∧
    function.signature.parameters[index]? = some .bool
  gives name := ∃ function ∈ functions, function.name = name ∧
    function.signature.result = .bool

section Promises

variable {definitions : List (Definition Position)} {functions before after : List TypedDefinition}
  {function : TypedDefinition}

theorem TypedDefinition.gives_iff (named : (functions.map TypedDefinition.name).Nodup)
    (member : function ∈ functions) :
    (promises functions).gives function.name ↔ function.signature.result = .bool := by
  constructor
  · rintro ⟨other, there, same, isBool⟩
    cases List.inj_on_of_nodup_map named there member same
    exact isBool
  · exact fun isBool => ⟨function, member, rfl, isBool⟩

theorem TypedDefinition.takes_iff (named : (functions.map TypedDefinition.name).Nodup)
    (member : function ∈ functions) {index : Nat} :
    (promises functions).takes function.name index ↔
      function.signature.parameters[index]? = some .bool := by
  constructor
  · rintro ⟨other, there, same, isBool⟩
    cases List.inj_on_of_nodup_map named there member same
    exact isBool
  · exact fun isBool => ⟨function, member, rfl, isBool⟩

/-- What is promised agrees with the table that a definition is checked against. Builtins are known
there by other names, and none of them gives a truth. -/
theorem Definition.ChecksAll.suits
    (checks : Definition.ChecksAll .standard definitions (before ++ after))
    {bindings : List (String × Ty)} {final : Recording} {setting : Lowering.Setting}
    (named : ∀ name id declaration, setting.callable.lookup name = some id →
      setting.module.declaration? id = some declaration → declaration.name = name) :
    Lowering.Outlook.Suits ⟨TypedDefinition.promises (before ++ after), bindings, final⟩ setting
      (SignatureTable.standard.extend before) where
  named := named
  takes name signature found index promised := by
    rcases SignatureTable.find?_extend_eq_some found with builtin | ⟨earlier, early, rfl, rfl⟩
    · obtain ⟨callee, member, rfl, -⟩ := promised
      have absent := SignatureTable.find?_eq_none_iff.mpr (checks.names_fresh.2 callee member)
      cases absent.symm.trans builtin
    · exact (TypedDefinition.takes_iff checks.names_fresh.1
        (List.mem_append_left _ early)).mp promised
  gives name signature found isBool := by
    rcases SignatureTable.find?_extend_eq_some found with builtin | ⟨earlier, early, rfl, rfl⟩
    · have other : SignatureTable.standard.All (· ≠ .bool) :=
        SignatureTable.all_standard (by simp)
      exact absurd isBool (other name signature builtin)
    · exact ⟨earlier, List.mem_append_left _ early, rfl, isBool⟩

end Promises

/-! ## Functions -/

/-- A function is the code of a definition, and a table says which value each node of the body
has. -/
inductive TypedDefinition.LowersTo (definition : TypedDefinition) (function : Function)
    (table : Lowering.Table) : Prop
  | intro {setting : Lowering.Setting} {id : FunctionId} {declaration : Declaration}
      {bound lowered last : Lowering.Stage} {result : Value}
      (compiles : Lowering.Compiles setting definition id declaration bound lowered result last)
      (accounts : Lowering.Accounts setting (.expression definition.body) bound [result] lowered
        table)
      (same : function = last.recording.builder.function)

/-- The code of a definition keeps promises, and so do all of its nodes and parameters. -/
structure TypedDefinition.Keeps (promises : Promises) (definition : TypedDefinition)
    (function : Function) (table : Lowering.Table) : Prop where
  lowers : definition.LowersTo function table
  listed : table.map Prod.fst = definition.body.notes
  named : definition.name = function.name
  truthful : ∃ bools recording, Recording.Truthful promises Lowering.firstBlock bools recording ∧
    recording.builder.function = function
  nodes : ∀ entry ∈ table, entry.1.type = .bool → function.Truth promises entry.2
  inputs : ∀ index : Nat, definition.signature.parameters[index]? = some .bool →
    ∃ value, (function.block Lowering.firstBlock).parameters[index]? = some value ∧
      function.Truth promises value

namespace Definition.Elaborates

variable {known : SignatureTable} {source : Definition Position} {definition : TypedDefinition}

theorem types (elaborates : Elaborates known source definition) :
    definition.parameters.map TypedParameter.type = definition.signature.parameters := by
  rw [elaborates.takes, elaborates.parameters, List.map_map]
  rfl

theorem body_annotated (elaborates : Elaborates known source definition) :
    definition.body.Annotated known (Variables.bindAll (fun _ => none)
      (definition.parameters.map TypedParameter.binding)) := by
  have annotated := elaborates.annotated
  have inputs : source.inputs = Variables.bindAll (fun _ => none)
      (definition.parameters.map TypedParameter.binding) := by
    rw [Definition.inputs, elaborates.parameters, List.map_map]
    rfl
  rwa [inputs] at annotated

end Definition.Elaborates

section Functions

variable {definitions : List (Definition Position)} {functions : List TypedDefinition}
  {module : Module}

/-- Every function of a compiled program is the code of a definition and keeps the promises of all
signatures. -/
theorem Origin.keeps (checks : Definition.ChecksAll .standard definitions functions)
    (careful : ∀ function ∈ functions, function.body.isCareful = true) {id : FunctionId}
    {body : Function} (origin : Origin functions module id body) :
    ∃ definition ∈ functions, ∃ table,
      definition.Keeps (TypedDefinition.promises functions) body table := by
  obtain ⟨member, -, compiles, accepted, rfl, found, named, prototype, -, -, callable⟩ :=
    origin
  rename_i setting definition declaration bound lowered last result
  obtain ⟨before, after, rfl⟩ := List.append_of_mem member
  obtain ⟨source, -, accepts⟩ := checks.checked
  have elaborates := Definition.elaborates_of_check accepts
  have parameters := elaborates.types
  obtain ⟨table, accounts⟩ : ∃ table, Lowering.Accounts setting (.expression definition.body)
      bound [result] lowered table := by
    obtain ⟨-, lowers, -⟩ := compiles
    exact lowers.accounts
  have names := checks.names_fresh.1
  obtain ⟨truthful, nodes, given⟩ := compiles.truthful accounts accepted rfl
    (checks.suits fun name other declared listed known => by
      obtain ⟨-, _, foundThere, same⟩ := callable name other listed
      cases known.symm.trans foundThere
      exact same)
    elaborates.body_annotated (careful definition member)
    (fun index parameter placed isBool => by
      rw [named, TypedDefinition.takes_iff names member, ← parameters, List.getElem?_map, placed,
        Option.map_some, isBool])
    (fun promised => by
      rw [named, TypedDefinition.gives_iff names member, elaborates.gives] at promised
      exact promised)
  have truth : ∀ {value}, Recording.Truth _ _ _ last.recording value →
      last.recording.builder.function.Truth _ value :=
    fun isTruth => ⟨_, _, last.recording, truthful, rfl, isTruth⟩
  have grows := Moves.grows compiles.moves
  refine ⟨definition, member, table, .intro compiles accounts rfl, accounts.notes,
    named.symm.trans grows.name.symm, ⟨_, last.recording, truthful, rfl⟩,
    fun entry listed isBool => truth (nodes entry listed isBool), fun index isBool => ?_⟩
  rw [← parameters, List.getElem?_map, Option.map_eq_some_iff] at isBool
  obtain ⟨parameter, placed, isBool⟩ := isBool
  have count : (last.recording.builder.function.block Lowering.firstBlock).parameters.length =
      definition.parameters.length := by
    rw [truthful.finished.verified.parameters.length_eq, grows.prototype]
    change declaration.prototype.parameters.length = _
    rw [prototype, Compiler.prototype, List.length_map, ← parameters, List.length_map]
  have inside := (List.getElem?_eq_some_iff.mp placed).1
  have value := List.getElem?_eq_getElem (count ▸ inside)
  exact ⟨_, value, truth (given index parameter _ placed isBool value)⟩

theorem Implements.truthful (implements : Implements module functions)
    (checks : Definition.ChecksAll .standard definitions functions)
    (careful : ∀ function ∈ functions, function.body.isCareful = true) :
    module.Truthful (TypedDefinition.promises functions) where
  bodies id body found := by
    obtain ⟨_, _, _, keeps⟩ := (implements.origin id body found).keeps checks careful
    exact ⟨_, keeps.truthful⟩
  named id body found external member callee code := by
    obtain ⟨-, _, known, named, -⟩ := (implements.origin id body found).external member
    obtain ⟨_, declared, name, -⟩ := (implements.origin external.id callee code).declared
    cases known.symm.trans declared
    exact name.symm.trans named
  hosted id body found external member empty := by
    rintro ⟨function, defined, same, -⟩
    obtain ⟨-, declaration, known, named, -⟩ := (implements.origin id body found).external member
    obtain ⟨other, there, foundThere, name, isSome⟩ := implements.defines function defined
    have equal := implements.distinct external.id other declaration there known foundThere
      (named.trans (same.symm.trans name.symm))
    rw [Module.body?, equal, foundThere] at empty
    change there.body = none at empty
    rw [empty] at isSome
    cases isSome

end Functions

/-! ## Activations -/

def Ssa.Frame.HasBool (frame : Frame) (table : Lowering.Table) (word : Int64) : Prop :=
  ∃ entry ∈ table, entry.1.type = .bool ∧ frame.registers[entry.2.index]? = some word

/-- What is a truth in an activation of a definition: the values of all nodes of type `Bool`, so
that comparing two of them is comparing what a condition finds of them; what was passed for the
parameters of type `Bool`, and is about to be passed for those of other functions; and what is
about to be given back if that is of type `Bool`. -/
structure Ssa.Frame.Canonical (functions : List TypedDefinition) (definition : TypedDefinition)
    (table : Lowering.Table) (frame : Frame) : Prop where
  nodes : ∀ entry ∈ table, entry.1.type = .bool →
    ∃ word, frame.registers[entry.2.index]? = some word ∧ IsTruth word
  compared : ∀ left right, frame.HasBool table left → frame.HasBool table right →
    ((Lowering.condition .equal).holds left right = true ↔ (left ≠ 0 ↔ right ≠ 0)) ∧
      ((Lowering.condition .notEqual).holds left right = true ↔ ¬ (left ≠ 0 ↔ right ≠ 0))
  given : ∀ index : Nat, definition.signature.parameters[index]? = some .bool → ∃ value word,
    (frame.function.block Lowering.firstBlock).parameters[index]? = some value ∧
      frame.registers[value.index]? = some word ∧ IsTruth word
  passed : ∀ instruction behind reference arguments external words,
    frame.rest = instruction :: behind → instruction.operation = .call reference arguments →
      frame.function.references[reference.index]? = some external →
        readAll frame.registers arguments = some words →
          ∀ callee ∈ functions, callee.name = external.name → ∀ (index : Nat) word,
            callee.signature.parameters[index]? = some .bool → words[index]? = some word →
              IsTruth word
  returned : definition.signature.result = .bool → ∀ instruction behind values words,
    frame.rest = instruction :: behind → instruction.operation = .ret values →
      readAll frame.registers values = some words → ∀ word ∈ words, IsTruth word

theorem TypedDefinition.Keeps.canonical {functions : List TypedDefinition}
    {definition : TypedDefinition} {table : Lowering.Table} {module : Module} {frame : Frame}
    (keeps : definition.Keeps (promises functions) frame.function table)
    (member : definition ∈ functions) (truthful : module.Truthful (promises functions))
    (seated : frame.Seated module)
    (holds : HoldTruths (frame.function.Truth (promises functions)) frame.registers) :
    frame.Canonical functions definition table where
  nodes entry listed isBool := holds entry.2 (keeps.nodes entry listed isBool)
  compared left right hasLeft hasRight := by
    have isTruth : ∀ {word}, frame.HasBool table word → IsTruth word := by
      rintro word ⟨entry, listed, isBool, found⟩
      exact holds.isTruth found (keeps.nodes entry listed isBool)
    have same := (isTruth hasLeft).eq_iff (isTruth hasRight)
    constructor
    · simpa [Lowering.condition, Condition.holds] using same
    · simpa [Lowering.condition, Condition.holds] using not_congr same
  given index isBool := by
    obtain ⟨value, placed, truth⟩ := keeps.inputs index isBool
    obtain ⟨word, found, isTruth⟩ := holds value truth
    exact ⟨value, word, placed, found, isTruth⟩
  passed instruction behind reference arguments external words rest operation found read callee
      defined named index word isBool given :=
    seated.passes truthful holds rest operation read found ⟨callee, defined, named, isBool⟩ given
  returned isBool instruction behind values words rest operation read :=
    seated.returns truthful holds rest operation read ⟨definition, member, keeps.named, isBool⟩

/-! ## Runs -/

section Runs

variable {σ : Type} {functions : List TypedDefinition} (environment : Environment σ)

/-- The state in which a function of a program is called from outside, with truths for its
parameters of type `Bool`. -/
theorem Implements.starts (implements : Implements environment.module functions)
    {function : TypedDefinition} (member : function ∈ functions) {arguments : List Int64}
    (passed : ∀ (index : Nat) word, function.signature.parameters[index]? = some .bool →
      arguments[index]? = some word → IsTruth word)
    {steps : Nat} {state : σ} {start : Machine σ}
    (started : environment.start function.name arguments steps state = .next start) :
    start.Truthful (TypedDefinition.promises functions) function.name := by
  obtain ⟨id, declaration, body, found, named, code, origin, -⟩ := implements.definition member
  obtain ⟨_, declared, name, -⟩ := origin.declared
  cases found.symm.trans declared
  have same : body.name = function.name := name.symm.trans named
  rw [← same]
  refine Machine.Truthful.start (named ▸ implements.distinct.find? found)
    (by rw [Module.body?, found]; exact code) (fun index word takes given => ?_) started
  rw [same, TypedDefinition.takes_iff implements.named member] at takes
  exact passed index word takes given

/-- A call that ends with words has started. -/
theorem Implements.started (implements : Implements environment.module functions)
    {function : TypedDefinition} (member : function ∈ functions) {arguments words : List Int64}
    {fuel steps after : Nat} {state last : σ}
    (ended : environment.call fuel function.name arguments steps state =
      some ⟨.ok words, after, last⟩) :
    ∃ start, environment.start function.name arguments steps state = .next start ∧
      start.run environment fuel = some ⟨.ok words, after, last⟩ := by
  obtain ⟨id, declaration, body, found, named, code, -, -⟩ := implements.definition member
  have there : environment.module.find? function.name = some id :=
    named ▸ implements.distinct.find? found
  have callee : environment.callee id = .body body := by
    simp [Environment.callee, found, code]
  simp only [Environment.call, Environment.start, there, callee] at ended ⊢
  split at ended
  · rename_i begun
    exact ⟨_, begun, ended⟩
  · rename_i begun
    cases ended
    split at begun <;> cases begun

end Runs

/-- Take a checked program that was compiled, in which arithmetic is applied to integers only and no
index expression has the type `Bool`, and call one of its functions from outside; if it has
parameters of type `Bool`, with truths for them. At every point of the run, every activation is one
of a definition, and each value of an expression of type `Bool` is zero or minus one, also where it
is that of a variable which was never given a value, and so is whatever is passed for a parameter
of type `Bool` and returned by a function of type `Bool`. Comparing two such values agrees with
comparing what a condition finds of them. What a function of type `Bool` returns in the end is zero
or minus one as well. -/
theorem truths_are_canonical {σ : Type} {definitions : List (Definition Position)}
    {functions : List TypedDefinition} {name entry : String} {module : Module}
    (checked : (Definition.checkAll .standard definitions).1 = .ok functions)
    (compiled : compileProgram name .standard entry functions = .ok module)
    (careful : ∀ function ∈ functions, function.body.isCareful = true)
    {function : TypedDefinition} (member : function ∈ functions) {arguments : List Int64}
    (passed : ∀ (index : Nat) word, function.signature.parameters[index]? = some .bool →
      arguments[index]? = some word → IsTruth word)
    (host : Host σ) (limit : Option Nat) (steps : Nat) (state : σ) :
    (∀ start later,
      Environment.start ⟨module, host, limit⟩ function.name arguments steps state = .next start →
        Machine.Reaches ⟨module, host, limit⟩ start later → ∀ frame ∈ later.frames,
          ∃ definition ∈ functions, ∃ table, definition.name = frame.function.name ∧
            definition.LowersTo frame.function table ∧
              table.map Prod.fst = definition.body.notes ∧
                frame.Canonical functions definition table) ∧
      (function.signature.result = .bool → ∀ fuel words after last,
        Environment.call ⟨module, host, limit⟩ fuel function.name arguments steps state =
          some ⟨.ok words, after, last⟩ → ∀ word ∈ words, IsTruth word) := by
  obtain ⟨checks, -⟩ := Definition.checkAll_eq_ok_iff.mp (Prod.ext checked rfl)
  have implements := compileProgram_implements checks compiled
  have truthful := implements.truthful checks careful
  constructor
  · intro start later started reached frame active
    have run := (implements.starts ⟨module, host, limit⟩ member passed started).run truthful
      (.start started) reached
    obtain ⟨above, below, split⟩ := List.append_of_mem active
    have stacked := (Machine.Stacked.start started).run reached
    rw [Machine.Stacked, split] at stacked
    have seated := stacked.ceiling_le.2
    obtain ⟨id, known⟩ := seated.known
    obtain ⟨definition, defined, table, keeps⟩ :=
      (implements.origin id frame.function known).keeps checks careful
    exact ⟨definition, defined, table, keeps.named, keeps.lowers, keeps.listed,
      keeps.canonical defined truthful seated (run.frame active)⟩
  · intro isBool fuel words after last ended
    obtain ⟨start, started, ran⟩ := implements.started ⟨module, host, limit⟩ member ended
    obtain ⟨later, reached, halted⟩ := Machine.reaches_of_run ran
    have run := (implements.starts ⟨module, host, limit⟩ member passed started).run truthful
      (.start started) reached
    exact run.ends truthful ((Machine.Stacked.start started).run reached) halted
      ((TypedDefinition.gives_iff implements.named member).mpr isBool)

/-- A function that denies a truth, and one that denies a variable which no round of a loop has
given a value. -/
def denials : List (Definition Position) :=
  let here := Position.unknown
  [{ name := "deny"
     parameters := [⟨"flag", .bool, here⟩]
     body := .conditional here (.ident here "flag") (.boolean here false) (.boolean here true)
     position := here },
   { name := "main"
     parameters := []
     body := .sequence here
       (.each here "round" (.integer here 0) (.bind here "seen" (.boolean here true)))
       (.call here "deny" [.ident here "seen"])
     position := here }]

theorem truths_are_canonical_denials : ∃ functions module,
    (Definition.checkAll .standard denials).1 = .ok functions ∧
      compileProgram "denials" .standard "main" functions = .ok module ∧
      (∃ fuel steps, Environment.call ⟨module, Host.echo, none⟩ fuel "main" [] 0 () =
        some ⟨.ok [-1], steps, ()⟩) ∧
      ∃ start, Environment.start ⟨module, Host.echo, none⟩ "main" [] 0 () = .next start ∧
        ∀ later, Machine.Reaches ⟨module, Host.echo, none⟩ start later →
          ∀ frame ∈ later.frames, ∃ definition ∈ functions, ∃ table,
            definition.LowersTo frame.function table ∧
              frame.Canonical functions definition table := by
  have evaluated : ((Definition.checkAll .standard denials).1.toOption.bind fun functions =>
      (compileProgram "denials" .standard "main" functions).toOption.bind fun module =>
        functions[1]?.bind fun function =>
          if function.name = "main" ∧
              (functions.all fun function => function.body.isCareful) = true then
            (Environment.call ⟨module, Host.echo, none⟩ 13 "main" [] 0 ()).map fun halt =>
              (halt.outcome, halt.steps)
          else none) = some (.ok [-1], 13) := by
    decide +kernel
  obtain ⟨functions, checked, evaluated⟩ := Option.bind_eq_some_iff.mp evaluated
  obtain ⟨module, compiled, evaluated⟩ := Option.bind_eq_some_iff.mp evaluated
  obtain ⟨function, found, evaluated⟩ := Option.bind_eq_some_iff.mp evaluated
  obtain ⟨⟨named, careful⟩, evaluated⟩ := Option.ite_none_right_eq_some.mp evaluated
  obtain ⟨⟨outcome, steps, last⟩, ended, result⟩ := Option.map_eq_some_iff.mp evaluated
  cases result
  have checked := eq_ok_of_toOption checked
  have compiled := eq_ok_of_toOption compiled
  have member := List.mem_of_getElem? found
  have canonical := truths_are_canonical checked compiled (List.all_eq_true.mp careful) member
    (show ∀ (index : Nat) word, _ → ([] : List Int64)[index]? = some word → _ by simp)
    Host.echo none 0 ()
  obtain ⟨checks, -⟩ := Definition.checkAll_eq_ok_iff.mp (Prod.ext checked rfl)
  obtain ⟨start, started, -⟩ := (compileProgram_implements checks compiled).started
    ⟨module, Host.echo, none⟩ member (named.symm ▸ ended)
  rw [named] at canonical started
  refine ⟨functions, module, checked, compiled, ⟨13, 13, ended⟩, start, started,
    fun later reached frame active => ?_⟩
  obtain ⟨definition, defined, table, -, lowers, -, holds⟩ :=
    canonical.1 start later started reached frame active
  exact ⟨definition, defined, table, lowers, holds⟩

end ExprLang
