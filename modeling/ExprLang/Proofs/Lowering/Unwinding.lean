import ExprLang.Proofs.Lowering.Drafts
import ExprLang.Proofs.Lowering.Success

/-!
# Lookups end while a body is lowered

An expression that has a type is lowered, whether or not there is room for its arrays, and it
becomes a part of the function with one way in and one way out. In the blocks of such parts every
way back leads to an earlier block.
-/

namespace ExprLang

open Ssa

namespace Lowering

/-! ## Parts of a draft -/

def Drafted (held : List Reference) (vars : Variables) (source : Label) (shape : Shape)
    (state : State) : Prop :=
  ∃ target last, Shape.Flows source target shape last ∧ Draft held vars last state

def Drafts (setting : Setting) (tree : Expr Typing) (vars later : Variables) : Prop :=
  ∀ {held : List Reference} {shape : Shape} {source : Label} {state : State},
    Drafted held vars source shape state →
      Succeeds (Lowering.expression setting tree) state fun _ after =>
        Drafted held later source shape after

namespace Drafted

variable {setting : Setting} {known : SignatureTable} {held : List Reference}
  {vars later : Variables} {shape middle : Shape} {source target : Label} {state : State}

theorem refl (draft : Draft held vars shape state) (active : shape.Active source) :
    Drafted held vars source shape state :=
  ⟨source, shape, .refl active, draft⟩

theorem weaken {others : List Reference} (drafted : Drafted held vars source shape state)
    (less : others ⊆ held) : Drafted others vars source shape state := by
  obtain ⟨target, last, flows, draft⟩ := drafted
  exact ⟨target, last, flows, draft.weaken less fun name type found => ⟨type, found⟩⟩

theorem still {step : Lower α} {wanted : α → List Reference}
    (drafted : Drafted held vars source shape state)
    (draws : ∀ last, Draft held vars last state →
      Succeeds step state fun value after => Draft (wanted value) later last after) :
    Succeeds step state fun value after => Drafted (wanted value) later source shape after := by
  obtain ⟨target, last, flows, draft⟩ := drafted
  exact (draws last draft).mono fun _ _ drawn => ⟨target, last, flows, drawn⟩

/-- An instruction is emitted. -/
theorem emit (drafted : Drafted held vars source shape state) (step : Build α)
    (emission : Emission)
    (same : (emission.build.run state.builder).2 = (step.run state.builder).2)
    (plain : emission.operation.isTerminator = false) :
    Succeeds (build step) state fun value after => value = (step.run state.builder).1 ∧
      Drafted held vars source shape after := by
  obtain ⟨target, last, flows, draft⟩ := drafted
  refine (draft.emit flows.active step emission same plain).mono ?_
  rintro value after ⟨given, next, further, drawn⟩
  exact ⟨given, target, next, flows.trans further, drawn⟩

/-- An instruction is emitted, and its value does not matter. -/
theorem emits {rest : α → Lower β} {goal : β → State → Prop}
    (drafted : Drafted held vars source shape state) (step : Build α) (emission : Emission)
    (same : (emission.build.run state.builder).2 = (step.run state.builder).2)
    (plain : emission.operation.isTerminator = false)
    (next : ∀ value after, Drafted held vars source shape after →
      Succeeds (rest value) after goal) :
    Succeeds (build step >>= rest) state goal :=
  .andThen (drafted.emit step emission same plain) fun value after reached =>
    next value after reached.2

theorem ends (drafted : Drafted held vars source shape state) (step : Build α)
    (emission : Emission)
    (same : (emission.build.run state.builder).2 = (step.run state.builder).2)
    (plain : emission.operation.isTerminator = false) :
    Succeeds (build step) state fun _ after => Drafted held vars source shape after :=
  (drafted.emit step emission same plain).mono fun _ _ reached => reached.2

/-- A call gives a value. -/
theorem call {tree : Expr Typing} {name : String} {arguments : List Value}
    {reference : Reference} (drafted : Drafted (reference :: held) vars source shape state) :
    Succeeds (do
      match ← build (Build.call reference arguments) with
      | result :: _ => return result
      | [] => blame setting tree (.backend name .noResult)) state fun _ after =>
        Drafted held vars source shape after := by
  have gives : Gives state.builder reference := by
    obtain ⟨target, last, flows, draft⟩ := drafted
    exact draft.held reference List.mem_cons_self
  obtain ⟨external, found, results⟩ := gives
  refine .andThen (drafted.emit (Build.call reference arguments) (.call reference arguments) rfl
    rfl) ?_
  rintro values after ⟨given, called⟩
  have length := @Build.call_length _ reference arguments external found
  rw [← given] at length
  cases values with
  | nil => exact absurd (List.length_eq_zero_iff.mp length.symm) results
  | cons result rest => exact .pure (called.weaken (List.subset_cons_self _ _))

theorem conditional {note : Typing} {test onTrue onFalse : Expr Typing}
    {tested between : Variables} (drafted : Drafted held vars source shape state)
    (onTest : Drafts setting test vars tested) (ofTrue : Drafts setting onTrue tested between)
    (ofFalse : Drafts setting onFalse between later) :
    Succeeds (Lowering.expression setting (.conditional note test onTrue onFalse)) state
      fun _ after => Drafted held later source shape after := by
  rw [Lowering.expression]
  refine .andThen (onTest drafted) ?_
  rintro value tested ⟨start, first, toFirst, draft⟩
  have bare := draft.outlines.bare
  have active := toFirst.active
  refine draft.fork active fun result forked draftForked => ?_
  have inLeft := @Shape.active_fork first start value result bare active.inside
  refine .andThen (ofTrue (.refl draftForked inLeft)) ?_
  rintro left filled ⟨leftEnd, onLeft, leftArm, draftLeft⟩
  -- The block in which the arms meet is older than either of them, so neither has sealed it.
  have merge : first.blocks + 2 < onLeft.blocks := leftArm.before.blocks
  have unsealed : onLeft.isSealed ⟨first.blocks + 2⟩ = false :=
    leftArm.unsealed_fork bare (Nat.lt_add_of_pos_right (show 0 < 2 by decide))
      (Nat.lt_succ_self _)
  refine draftLeft.jumps leftArm.active ⟨merge, unsealed⟩ [left] (Nat.lt_of_succ_lt merge)
    (leftArm.unsealed_fork bare (Nat.lt_succ_self _)
      (Nat.add_lt_add_left (show 1 < 3 by decide) _)) fun turned draftTurned => ?_
  have inRight := Shape.Flows.active_turn bare active.inside leftArm
    (.jump ⟨⟨first.blocks + 2⟩, [left]⟩)
  refine .andThen (ofFalse (.refl draftTurned inRight)) ?_
  rintro right done ⟨rightEnd, onRight, rightArm, draftRight⟩
  have still : onRight.isSealed ⟨first.blocks + 2⟩ = false := by
    rw [rightArm.apart.isSealed _ merge]
    simpa [Shape.hop, Shape.close, Shape.switch, Shape.emit, Shape.note] using unsealed
  have further : first.blocks + 2 < onRight.blocks :=
    Nat.lt_of_lt_of_le merge rightArm.before.blocks
  have around := Shape.Flows.conditional bare active rfl leftArm rightArm
    (show onRight.hop rightEnd (.jump ⟨⟨first.blocks + 2⟩, [right]⟩) ⟨first.blocks + 2⟩ = _
      from rfl)
  exact draftRight.jumps rightArm.active ⟨further, still⟩ [right] further still
    fun joined draftJoined => .pure ⟨_, _, toFirst.trans around, draftJoined⟩

theorem each {note : Typing} {name : String} {bound body : Expr Typing} {limited : Variables}
    (drafted : Drafted held vars source shape state) (onBound : Drafts setting bound vars limited)
    (inLoop : Drafts setting body (limited.bind name .int) later) :
    Succeeds (Lowering.expression setting (.each note name bound body)) state fun _ after =>
      Drafted held later source shape after := by
  rw [Lowering.expression]
  refine .andThen (onBound drafted) ?_
  rintro limit limited ⟨start, first, toFirst, draft⟩
  have bare := draft.outlines.bare
  have active := toFirst.active
  refine draft.enter active fun counter round one compared entered draftEntered => ?_
  have inside := @Shape.active_enterLoop first start limit counter round one compared bare
    active.inside
  refine .andThen (draftEntered.bindName name round .int) fun _ bound draftBound => ?_
  refine .andThen (inLoop (.refl draftBound inside)) fun _ _ filled => ?_
  refine filled.emits _ (.arithmetic .add round one) rfl rfl fun next advanced drafted => ?_
  obtain ⟨bodyEnd, onBody, inBody, draftBody⟩ := drafted
  -- Both the header and the exit are older than the body, which seals neither of them.
  have exit : first.blocks + 2 < onBody.blocks := inBody.before.blocks
  refine draftBody.leaveLoop inBody.active (Nat.lt_of_succ_lt (Nat.lt_of_succ_lt exit)) exit
    (inBody.unsealed_loop bare (Nat.le_refl _)
      (Nat.lt_add_of_pos_right (show 0 < 3 by decide)) (by simp))
    (inBody.unsealed_loop bare (Nat.le_add_right _ _) (Nat.lt_succ_self _) (by simp))
    (by simp) fun left draftLeft => ?_
  have around := Shape.Flows.loop bare active rfl rfl inBody
    (show onBody.leaveLoop bodyEnd next ⟨first.blocks⟩ ⟨first.blocks + 2⟩ = _ from rfl)
  exact Drafted.ends ⟨_, _, toFirst.trans around, draftLeft⟩ _ (.constant .i64 0) rfl rfl

mutual

/-- An expression that has a type is lowered, whether or not there is room for its arrays. -/
theorem expression (supports : setting.Supports known) {tree : Expr Typing} {type : Ty}
    {held : List Reference} {vars later : Variables} {shape : Shape} {source : Label}
    {state : State} (types : Types known vars tree type later)
    (drafted : Drafted held vars source shape state) :
    Succeeds (Lowering.expression setting tree) state fun _ after =>
      Drafted held later source shape after := by
  cases types with
  | @integer _ note value =>
      rw [Lowering.expression]
      exact drafted.ends _ (.constant .i64 value) rfl rfl
  | @boolean _ note value =>
      rw [Lowering.expression]
      exact drafted.ends _ (.constant .i64 (truthWord value)) rfl rfl
  | @ident _ note name _ bound =>
      rw [Lowering.expression]
      refine drafted.still fun last draft => .get ?_
      obtain ⟨var, found⟩ := draft.bound name type bound
      rw [found]
      exact draft.useVariable var
  | @arithmetic _ note operation left right _ _ _ onLeft onRight =>
      rw [Lowering.expression]
      exact .andThen (expression supports onLeft drafted) fun first _ drafted =>
        .andThen (expression supports onRight drafted) fun second _ drafted =>
          drafted.ends _ (.arithmetic operation first second) rfl rfl
  | @comparison _ note relation left right _ _ _ onLeft onRight =>
      rw [Lowering.expression]
      exact .andThen (expression supports onLeft drafted) fun first _ drafted =>
        .andThen (expression supports onRight drafted) fun second _ drafted =>
          drafted.emits _ (.compare (condition relation) first second) rfl rfl
            fun bit _ drafted => drafted.ends _ (.signExtend .i64 bit) rfl rfl
  | @bind _ note name value _ _ inner =>
      rw [Lowering.expression]
      exact .andThen (expression supports inner drafted) fun value _ drafted =>
        .andThen (drafted.still fun _ draft => draft.bindName name value type)
          fun _ _ drafted => .pure drafted
  | @sequence _ note first second _ _ _ _ onFirst onSecond =>
      rw [Lowering.expression]
      exact .andThen (expression supports onFirst drafted) fun _ _ drafted =>
        expression supports onSecond drafted
  | @call _ note function arguments signature _ found onArguments =>
      rw [Lowering.expression]
      exact .andThen (drafted.still fun _ draft => draft.reference supports found)
        fun reference _ drafted =>
          .andThen (expressions supports onArguments drafted) fun _ _ drafted => drafted.call
  | conditional onCondition trueArm falseArm =>
      exact drafted.conditional (fun drafted => expression supports onCondition drafted)
        (fun drafted => expression supports trueArm drafted)
        fun drafted => expression supports falseArm drafted
  | @index _ note target position _ _ _ onTarget ofArrays onPosition =>
      rw [Lowering.expression]
      exact .andThen (expression supports onTarget drafted) fun base _ drafted =>
        .andThen (expression supports onPosition drafted) fun index _ drafted =>
        drafted.emits _ (.constant .i64 1) rfl rfl fun one _ drafted =>
        drafted.emits _ (.constant .i64 (Int64.ofNat wordSize)) rfl rfl fun word _ drafted =>
        drafted.emits _ (.arithmetic .add index one) rfl rfl fun place _ drafted =>
        drafted.emits _ (.arithmetic .multiply place word) rfl rfl fun offset _ drafted =>
        drafted.emits _ (.arithmetic .add base offset) rfl rfl fun address _ drafted =>
        drafted.ends _ (.load .i64 address 0) rfl rfl
  | @length _ note target _ _ onTarget ofArrays =>
      rw [Lowering.expression]
      exact .andThen (expression supports onTarget drafted) fun base _ drafted =>
        drafted.ends _ (.load .i64 base 0) rfl rfl
  | each onBound inLoop =>
      exact drafted.each (fun drafted => expression supports onBound drafted)
        fun drafted => expression supports inLoop drafted
  | @array _ note elements _ _ _ onElements same =>
      rw [Lowering.expression]
      exact .andThen (drafted.still fun _ draft => draft.createSlot _) fun slot _ drafted =>
        drafted.emits _ (.constant .i64 (Int64.ofNat elements.length)) rfl rfl
          fun length _ drafted =>
        drafted.emits _ (.slotStore length slot 0) rfl rfl fun _ _ drafted =>
        .andThen (storeElements supports slot 1 onElements drafted) fun _ _ drafted =>
        drafted.ends _ (.slotAddress slot 0) rfl rfl

theorem expressions (supports : setting.Supports known) {trees : List (Expr Typing)}
    {types : List Ty} {held : List Reference} {vars later : Variables} {shape : Shape}
    {source : Label} {state : State} (all : TypesAll known vars trees types later)
    (drafted : Drafted held vars source shape state) :
    Succeeds (Lowering.expressions setting trees) state fun _ after =>
      Drafted held later source shape after := by
  cases all with
  | nil =>
      rw [Lowering.expressions]
      exact .pure drafted
  | cons head tail =>
      rw [Lowering.expressions]
      exact .andThen (expression supports head drafted) fun _ _ drafted =>
        .andThen (expressions supports tail drafted) fun _ _ drafted => .pure drafted

theorem storeElements (supports : setting.Supports known) (slot : Slot) (index : Nat)
    {trees : List (Expr Typing)} {types : List Ty} {held : List Reference}
    {vars later : Variables} {shape : Shape} {source : Label} {state : State}
    (all : TypesAll known vars trees types later)
    (drafted : Drafted held vars source shape state) :
    Succeeds (Lowering.storeElements setting slot index trees) state fun _ after =>
      Drafted held later source shape after := by
  cases all with
  | nil =>
      rw [Lowering.storeElements]
      exact .pure drafted
  | cons head tail =>
      rw [Lowering.storeElements]
      exact .andThen (expression supports head drafted) fun value _ drafted =>
        drafted.emits _ (.slotStore value slot (Int32.ofNat (wordSize * index))) rfl rfl
          fun _ _ drafted => storeElements supports slot (index + 1) tail drafted

end

end Drafted

/-! ## Bodies -/

/-- A request whose outcome is known. -/
theorem Succeeds.exactly {state : State} {step : Build α} {rest : α → Lower β}
    {goal : β → State → Prop} {value : α} {builder : Builder} (command : Command)
    (same : (command.build.run state.builder).2 = (step.run state.builder).2)
    (ran : step.run state.builder = (value, builder))
    (succeeds : Succeeds (rest value) { state with builder } goal) :
    Succeeds (build step >>= rest) state goal := by
  refine .andThen (@Succeeds.request _ _ step (fun result later =>
    result = value ∧ later = { state with builder }) command same ?_) ?_
  · rw [ran]
    exact ⟨rfl, rfl⟩
  · rintro _ _ ⟨rfl, rfl⟩
    exact succeeds

theorem Draft.bindParameters {held : List Reference} {vars : Variables} {shape : Shape}
    {state : State} (parameters : List TypedParameter) {values : List Value}
    (draft : Draft held vars shape state) (length : values.length = parameters.length) :
    Succeeds (Lowering.bindParameters parameters values) state fun _ later =>
      Draft held (vars.bindAll (parameters.map fun parameter => (parameter.name, parameter.type)))
        shape later := by
  induction parameters generalizing values vars state with
  | nil =>
      simp only [Lowering.bindParameters]
      exact .pure draft
  | cons parameter parameters induction =>
      cases values with
      | nil => cases length
      | cons value values =>
          rw [Lowering.bindParameters]
          exact .andThen (draft.bindName parameter.name value parameter.type) fun _ _ bound =>
            induction bound (by simpa using length)

section Bodies

variable (id : FunctionId) (declaration : Declaration)

theorem Draft.opened : Draft [] (fun _ => none) (Stage.opened id declaration).shape
    (Stage.opened id declaration).state where
  outlines := .of_recording (((Stage.reaches_opened id declaration).sound
    (Sound.start id declaration)))
  bound _ _ found := by cases found
  held _ member := by cases member
  referred _ _ found := by cases found
  imported other reference found := by
    have tables := sameTables_of_performsAll (Stage.performs_opened id declaration)
      (by simp [Stage.opening, Deed.isLocal])
    rw [show (Stage.opened id declaration).state.builder.imports = [] from tables.imports] at found
    cases found

/-- The body of a function is lowered if it has a type, and then ways back do not return. -/
theorem Succeeds.body {setting : Setting} {known : SignatureTable}
    (supports : setting.Supports known) {definition : TypedDefinition} {later : Variables}
    {type : Ty} (types : Types known (Variables.bindAll (fun _ => none)
      (definition.parameters.map fun parameter => (parameter.name, parameter.type)))
      definition.body type later)
    (count : declaration.prototype.parameters.length = definition.parameters.length) :
    Succeeds (Lowering.body setting definition) ⟨.start id declaration, [], 0, []⟩
      fun _ final => final.builder.Unwinds := by
  have ready := Stage.ready_opened id declaration setting
  have active := Stage.active_opened id declaration
  rw [Lowering.body]
  refine .exactly .createBlock rfl (show Build.createBlock.run (Builder.start id declaration) =
    (firstBlock, (Recording.start id declaration).create.builder) from rfl) ?_
  refine .exactly (.appendFunctionParameters firstBlock) rfl
    (Recording.append_run _ (Stage.hasBlock_create id declaration)
      (by rw [Stage.state_create]; rfl)) ?_
  refine .exactly (.switchTo firstBlock) rfl
    (Build.switchTo_run (Stage.hasBlock_made id declaration) (Stage.mayLeave_made id declaration))
    ?_
  refine .exactly (.sealBlock firstBlock) rfl (Stage.seal_run id declaration) ?_
  refine .exactly (.parameters firstBlock) rfl (Build.parameters_run ?_) ?_
  · rw [Recording.hasBlock_iff]
    change firstBlock.index < (Stage.opened id declaration).shape.blocks
    rw [Stage.shape_opened]
    exact Nat.zero_lt_one
  rw [Stage.parameters_opened id declaration]
  refine .andThen ((Draft.opened id declaration).bindParameters definition.parameters
    (by simpa [Stage.inputs] using count)) fun _ bound draftBound => ?_
  refine .andThen (Drafted.expression supports types (.refl draftBound active)) ?_
  rintro result lowered ⟨target, last, flows, draftLowered⟩
  refine .andThen (draftLowered.append flows.active (Build.ret [result]) (.ret [result]) rfl
    (List.forall_mem_nil _) fun _ => []) fun _ returned draftReturned => ?_
  have descends := flows.descends draftLowered.outlines.bare ready.descends
  refine .request .sealAll rfl ?_
  rw [sealAll_run]
  · refine draftReturned.outlines.unwinds fun label edge closed only => ?_
    exact descends label edge closed (by
      simpa [Shape.emit, Shape.note, Emission.operation, Operation.destinations, Builder.edgesTo]
        using only)
  · intro index inside
    rw [draftReturned.outlines.size] at inside
    rw [draftReturned.outlines.isSealed]
    exact (opened_blocks flows inside).2.1

end Bodies

end Lowering

/-! ## Compilers that can call what is known -/

theorem SignatureTable.entries_registerAll {entries : List (String × Signature)}
    {table later : SignatureTable} (registered : table.registerAll entries = (none, later)) :
    later.entries = table.entries ++ entries := by
  induction entries generalizing table with
  | nil =>
      cases registered
      simp
  | cons entry entries induction =>
      obtain ⟨name, signature⟩ := entry
      rw [registerAll] at registered
      split at registered
      · rename_i larger added
        rw [induction registered]
        rw [register] at added
        split at added
        · cases added
        · cases added
          simp [push]
      · cases registered

theorem SignatureTable.entries_ofList {entries : List (String × Signature)}
    {table : SignatureTable} (made : ofList entries = .ok table) : table.entries = entries := by
  rw [ofList] at made
  split at made
  · rename_i later registered
    cases made
    simpa [empty] using entries_registerAll registered
  · cases made

namespace Compiler

variable {known : SignatureTable} {compiler first later : Compiler} {registry : Registry}
  {name entry : String}

def Offers (known : SignatureTable) (compiler : Compiler) : Prop :=
  ∀ name signature, known.find? name = some signature →
    ∃ id, compiler.callable.lookup name = some id

theorem lookup_callable {callable : List (String × FunctionId)} {added other : String}
    {id : FunctionId} (offered : other = added ∨ ∃ place, callable.lookup other = some place) :
    ∃ place, ((added, id) :: callable).lookup other = some place := by
  rw [List.lookup_cons]
  cases same : other == added with
  | true => exact ⟨id, rfl⟩
  | false => exact offered.resolve_left (beq_eq_false_iff_ne.mp same)

theorem declareBuiltins_callable (declared : compiler.declareBuiltins registry = .ok later)
    (offered : name ∈ registry.names ∨ ∃ id, compiler.callable.lookup name = some id) :
    ∃ id, later.callable.lookup name = some id := by
  induction registry generalizing compiler with
  | nil =>
      cases declared
      exact offered.resolve_left nofun
  | cons builtin registry induction =>
      rw [declareBuiltins] at declared
      split at declared
      · cases declared
      · refine induction declared ?_
        rcases offered with listed | old
        · rcases List.mem_cons.mp listed with same | rest
          · exact .inr (lookup_callable (.inl same))
          · exact .inl rest
        · exact .inr (lookup_callable (.inr old))

theorem Offers.start (seeded : registry.table = .ok known)
    (started : Compiler.start name registry entry = .ok first) : first.Offers known := by
  intro other signature found
  refine declareBuiltins_callable started (.inl ?_)
  have member : other ∈ known.names := by
    by_contra absent
    rw [SignatureTable.find?_eq_none_iff.mpr absent] at found
    cases found
  rwa [SignatureTable.names, SignatureTable.entries_ofList seeded, Registry.entries, List.map_map]
    at member

theorem Offers.addAll {functions : List TypedDefinition} (offers : compiler.Offers known)
    (added : compiler.addAll functions = .ok later) : later.Offers (known.extend functions) := by
  induction functions generalizing compiler known with
  | nil =>
      cases added
      simpa using offers
  | cons function functions induction =>
      rw [Compiler.addAll] at added
      split at added
      · cases added
      · rename_i middle taken
        obtain ⟨id, declaration, module, state, takes⟩ := takes_of_add taken
        rw [← SignatureTable.push_extend]
        refine induction (fun other signature found => ?_) added
        rw [takes.result]
        refine lookup_callable ?_
        rw [SignatureTable.find?_push, Option.or_eq_some_iff] at found
        rcases found with old | ⟨-, new⟩
        · exact .inr (offers other signature old)
        · split at new
          · rename_i same
            exact .inl same
          · cases new

theorem Offers.supports {definitions : List TypedDefinition} (offers : compiler.Offers known)
    (regular : compiler.Regular definitions) {module : Module} (wordy : module.Wordy)
    (precedes : compiler.module.Precedes module) (function : String) :
    Lowering.Setting.Supports ⟨function, module, compiler.callable⟩ known := by
  intro name signature found
  obtain ⟨id, listed⟩ := offers name signature found
  obtain ⟨declaration, declared, -⟩ := regular.callable name id listed
  obtain ⟨becomes, there, -⟩ := precedes id declaration declared
  exact ⟨id, becomes, listed, there, by simp [(wordy id becomes there).2]⟩

end Compiler

/-! ## Builders whose lookups end -/

namespace Ssa

def Builder.after (builder : Builder) (commands : List Command) : Builder :=
  commands.foldl (fun builder command => (command.build.run builder).2) builder

theorem Builder.becomes_after (builder : Builder) (commands : List Command) :
    builder.Becomes (builder.after commands) := by
  induction commands generalizing builder with
  | nil => exact .refl
  | cons command commands induction => exact .head ⟨command, rfl⟩ (induction _)

def circlingDeclaration : Declaration :=
  ⟨"main", ⟨[], [.i64]⟩, .exported, none⟩

/-- Nothing leads to the second and the third block but these blocks themselves, and a variable is
used behind them. No block is sealed yet. -/
def circling : Builder :=
  (Builder.start ⟨0⟩ circlingDeclaration).after
    [.createBlock, .createBlock, .createBlock, .createBlock, .declareVariable ⟨0⟩ .i64,
      .switchTo ⟨1⟩, .emit (.jump ⟨⟨2⟩, []⟩), .switchTo ⟨2⟩, .emit (.constant .i1 1),
      .emit (.branch ⟨0⟩ ⟨⟨1⟩, []⟩ ⟨⟨3⟩, []⟩), .switchTo ⟨3⟩, .useVariable ⟨0⟩,
      .emit (.ret [⟨1⟩])]

theorem becomes_circling : (Builder.start ⟨0⟩ circlingDeclaration).Becomes circling :=
  Builder.becomes_after _ _

theorem unwinds_circling : circling.Unwinds := by
  have unsealed : ∀ label, (circling.state label).isSealed = false := by
    intro label
    have all : ∀ state ∈ circling.states.toList, state.isSealed = false := by decide +kernel
    rw [Builder.state, Array.getD_eq_getD_getElem?]
    cases found : circling.states[label.index]? with
    | none => rfl
    | some state => exact all state (Array.mem_toList_iff.mpr (Array.mem_of_getElem? found))
  intro label way
  obtain ⟨source, ⟨closed, -⟩, -⟩ := Relation.TransGen.head'_iff.mp way
  exact Bool.false_ne_true ((unsealed label).symm.trans closed)

end Ssa

/-- While a checked definition is lowered behind the definitions before it, ways back never
return. -/
theorem Compiler.unwinds_lowering {name entry : String} {registry : Registry}
    {known : SignatureTable} {definitions : List (Definition Position)}
    {before after : List TypedDefinition} {typed : TypedDefinition} {first compiler : Compiler}
    {id : FunctionId} {module : Module} {builder : Builder}
    (seeded : registry.table = .ok known)
    (checks : Definition.ChecksAll known definitions (before ++ typed :: after))
    (started : Compiler.start name registry entry = .ok first)
    (added : first.addAll before = .ok compiler)
    (declared : compiler.module.declare typed.name (prototype typed.signature)
      (compiler.linkage typed.name) = .ok (id, module))
    (built : module.build id = .ok builder) :
    ∃ final, (Lowering.body ⟨typed.name, module, compiler.callable⟩ typed).run
        ⟨builder, [], 0, []⟩ = .ok ((), final) ∧
      builder.Becomes final.builder ∧
      ∀ between, builder.Becomes between → between.Becomes final.builder → between.Unwinds := by
  obtain ⟨source, -, accepted⟩ := checks.checked
  obtain ⟨declaration, found, -, -, rfl⟩ := Module.build_eq_ok built
  have elaborates := Definition.elaborates_of_check accepted
  have regular := regular_of_addAll (fun earlier member =>
    checks.sources earlier (List.mem_append_left _ member)) started added
  have wordy := regular.wordy.declare (by simp [prototype]) rfl declared
  have supports := ((Offers.start seeded started).addAll added).supports regular wordy
    (Module.precedes_declare declared) typed.name
  have count : declaration.prototype.parameters.length = typed.parameters.length := by
    rw [prototype_of_declare declared found, prototype, List.length_map]
    exact Definition.coherent_of_check accepted
  have types := Types.of_map typed.body elaborates.annotated.types
  have inputs : source.inputs = Variables.bindAll (fun _ => none)
      (typed.parameters.map fun parameter => (parameter.name, parameter.type)) := by
    rw [Definition.inputs, elaborates.parameters, List.map_map]
    rfl
  rw [inputs] at types
  obtain ⟨⟨⟩, final, lowered, becomes, unwinds⟩ :=
    Lowering.Succeeds.body id declaration supports types count
  refine ⟨final, lowered, becomes, fun between reached finishes => ?_⟩
  have orderly := ((Builder.Orderly.start id declaration).becomes reached).orderly
  exact (orderly.becomes finishes).persists.unwinds unwinds

/-- Lookups end, as do uses of variables and requests to seal a block, whenever moving again and
again from a sealed block with one predecessor to that predecessor never returns to the same block.
Sealing all blocks ends if this holds each time that one of them is sealed, that is to say, even
if the blocks below it are sealed as well. And while the body of a checked function is lowered,
every builder is like that. -/
theorem lookups_terminate :
    (∀ (id : FunctionId) (declaration : Declaration) (builder : Builder),
      (Builder.start id declaration).Becomes builder → builder.Unwinds → builder.LookupsEnd) ∧
    ∀ (name entry : String) (registry : Registry) (known : SignatureTable)
      (definitions : List (Definition Position)) (before after : List TypedDefinition)
      (typed : TypedDefinition) (first compiler : Compiler) (id : FunctionId) (module : Module)
      (builder : Builder),
      registry.table = .ok known →
      (Definition.checkAll known definitions).1 = .ok (before ++ typed :: after) →
      Compiler.start name registry entry = .ok first → first.addAll before = .ok compiler →
      compiler.module.declare typed.name (Compiler.prototype typed.signature)
        (compiler.linkage typed.name) = .ok (id, module) →
      module.build id = .ok builder →
        ∃ final, (Lowering.body ⟨typed.name, module, compiler.callable⟩ typed).run
            ⟨builder, [], 0, []⟩ = .ok ((), final) ∧
          builder.Becomes final.builder ∧
          ∀ between, builder.Becomes between → between.Becomes final.builder →
            between.Unwinds := by
  constructor
  · intro id declaration builder reached unwinds
    exact ((Builder.Orderly.start id declaration).becomes reached).orderly.lookupsEnd unwinds
  · intro name entry registry known definitions before after typed first compiler id module builder
      seeded checked started added declared built
    obtain ⟨checks, -⟩ := Definition.checkAll_eq_ok_iff.mp (Prod.ext checked rfl)
    exact Compiler.unwinds_lowering seeded checks started added declared built

/-- A loop is lowered so that lookups end all the time, and they end in `circling`, too. -/
theorem lookups_terminate_circling : circling.LookupsEnd ∧
    ∃ typed first id module builder final,
      Registry.standard.table = .ok SignatureTable.standard ∧
      (Definition.checkAll .standard [boundedSum]).1 = .ok [typed] ∧
      Compiler.start "sums" .standard "sum" = .ok first ∧
      first.module.declare typed.name (Compiler.prototype typed.signature)
        (first.linkage typed.name) = .ok (id, module) ∧
      module.build id = .ok builder ∧
      (Lowering.body ⟨typed.name, module, first.callable⟩ typed).run ⟨builder, [], 0, []⟩ =
        .ok ((), final) ∧ final.builder.Unwinds := by
  have seeded : Registry.standard.table = .ok SignatureTable.standard := by decide +kernel
  have computed : ((Definition.checkAll .standard [boundedSum]).1.toOption.bind fun functions =>
      functions.head?.bind fun typed =>
      (Compiler.start "sums" .standard "sum").toOption.bind fun first =>
      (first.module.declare typed.name (Compiler.prototype typed.signature)
        (first.linkage typed.name)).toOption.bind fun declared =>
      (declared.2.build declared.1).toOption.bind fun _ =>
      if functions.length = 1 then some () else none) = some () := by
    decide +kernel
  obtain ⟨functions, checked, computed⟩ := Option.bind_eq_some_iff.mp computed
  obtain ⟨typed, head, computed⟩ := Option.bind_eq_some_iff.mp computed
  obtain ⟨first, started, computed⟩ := Option.bind_eq_some_iff.mp computed
  obtain ⟨⟨id, module⟩, declared, computed⟩ := Option.bind_eq_some_iff.mp computed
  obtain ⟨builder, built, computed⟩ := Option.bind_eq_some_iff.mp computed
  obtain ⟨one, -⟩ := Option.ite_none_right_eq_some.mp computed
  obtain ⟨other, rfl⟩ := List.length_eq_one_iff.mp one
  cases head
  have checked := eq_ok_of_toOption checked
  have started := eq_ok_of_toOption started
  have declared := eq_ok_of_toOption declared
  have built := eq_ok_of_toOption built
  obtain ⟨final, lowered, becomes, unwinds⟩ := lookups_terminate.2 "sums" "sum" .standard .standard
    [boundedSum] [] [] typed first first id module builder seeded checked started rfl declared built
  exact ⟨lookups_terminate.1 ⟨0⟩ circlingDeclaration circling becomes_circling unwinds_circling,
    typed, first, id, module, builder, final, seeded, checked, started, declared, built, lowered,
    unwinds final.builder becomes .refl⟩

/-- In `circling` all lookups end, but not all blocks can be sealed one after the other: when it is
the turn of the last one, the second and the third are sealed, and they can only be entered from one
another. -/
theorem sealing_all_does_not_end :
    (Builder.start ⟨0⟩ circlingDeclaration).Becomes circling ∧ circling.Unwinds ∧
      (¬ ∃ later, SealingAllEnds (List.range circling.states.size) circling later) ∧
      (Build.sealAll.run circling).2.misuse = some (.endlessLookup ⟨0⟩) := by
  refine ⟨becomes_circling, unwinds_circling, ?_, by decide +kernel⟩
  rintro ⟨later, ends⟩
  rw [show List.range circling.states.size = [0, 1, 2, 3] by decide +kernel] at ends
  have behind := ((ends.idle (by decide +kernel) (by decide +kernel) (by decide +kernel)).idle
    (by decide +kernel) (by decide +kernel) (by decide +kernel)).idle
    (by decide +kernel) (by decide +kernel) (by decide +kernel)
  obtain ⟨value, middle, found⟩ := @SealingAllEnds.pending _ _ _ _ behind (by decide +kernel)
    (by decide +kernel) ⟨0⟩ ⟨1⟩ (by decide +kernel) ⟨⟨2⟩, 1⟩ [] (by decide +kernel)
  refine @Errand.Ends.not_in_cycle _ _ _ _ _ (fun label => label = ⟨1⟩ ∨ label = ⟨2⟩) ?_ ?_ ⟨2⟩
    (.inr rfl) found
  · rintro _ (rfl | rfl) <;> decide +kernel
  · rintro _ (rfl | rfl)
    · exact ⟨⟨2⟩, ⟨by decide +kernel, ⟨⟨2⟩, 0⟩, by decide +kernel, rfl⟩, .inr rfl⟩
    · exact ⟨⟨1⟩, ⟨by decide +kernel, ⟨⟨1⟩, 0⟩, by decide +kernel, rfl⟩, .inl rfl⟩

end ExprLang
