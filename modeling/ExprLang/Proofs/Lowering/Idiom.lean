import ExprLang.Proofs.Lowering.DefinitionsFirst

/-!
# What lowered code consists of

Lowering uses few of the operations that a builder offers, and it uses them in few ways: values
are words, apart from the outcomes of comparisons; those are extended to words or decide
branches; and the two ways out of a branch lead to different blocks.
-/

namespace ExprLang

open Ssa

/-! ## Idiomatic functions -/

namespace Ssa

def Function.HasRoom (function : Function) (slot : Slot) (index : Nat) : Prop :=
  ∃ size : UInt32, function.slots[slot.index]? = some size ∧
    (Lowering.wordOffset index).toInt + 8 ≤ size.toNat

inductive Operation.Idiomatic (function : Function) : Operation → List MachineType → Prop
  | constant {word : Int64} : Idiomatic function (.constant .i64 word) [.i64]
  | arithmetic {operation : Arithmetic} {left right : Value}
      (onLeft : function.type? left = some .i64) (onRight : function.type? right = some .i64) :
      Idiomatic function (.arithmetic operation left right) [.i64]
  | compare {relation : Comparison} {left right : Value}
      (onLeft : function.type? left = some .i64) (onRight : function.type? right = some .i64) :
      Idiomatic function (.compare (Lowering.condition relation) left right) [.i1]
  | signExtend {operand : Value} (narrow : function.type? operand = some .i1) :
      Idiomatic function (.signExtend .i64 operand) [.i64]
  | load {address : Value} (word : function.type? address = some .i64) :
      Idiomatic function (.load .i64 address 0) [.i64]
  | slotAddress {slot : Slot} : Idiomatic function (.slotAddress .i64 slot 0) [.i64]
  | slotStore {value : Value} {slot : Slot} {index : Nat}
      (word : function.type? value = some .i64)
      (inside : ∀ earlier ≤ index, function.HasRoom slot earlier) :
      Idiomatic function (.slotStore value slot (Lowering.wordOffset index)) []
  | call {reference : Reference} {arguments : List Value} {external : External}
      (words : ∀ argument ∈ arguments, function.type? argument = some .i64)
      (found : function.references[reference.index]? = some external)
      (wanted : external.prototype.parameters = arguments.map fun _ => .i64)
      (given : external.prototype.results = [.i64]) :
      Idiomatic function (.call reference arguments) [.i64]
  | branch {condition : Value} {type : MachineType} {onTrue onFalse : Destination}
      (typed : function.type? condition = some type) (either : type = .i1 ∨ type = .i64)
      (apart : onTrue.block ≠ onFalse.block) :
      Idiomatic function (.branch condition onTrue onFalse) []
  | jump {target : Destination} : Idiomatic function (.jump target) []
  | ret {value : Value} (word : function.type? value = some .i64) :
      Idiomatic function (.ret [value]) []

def Instruction.Idiomatic (function : Function) (instruction : Instruction) : Prop :=
  ∃ types, instruction.operation.Idiomatic function types ∧
    List.Forall₂ (fun value type => function.type? value = some type) instruction.results types

def IsArraySize (size : UInt32) : Prop :=
  ∃ count : Nat, size = UInt32.ofNat (Lowering.wordSize * (count + 1))

/-- A function as lowering makes it: its slots are for arrays, its blocks take words, and its
instructions are idiomatic. -/
structure Function.Idiomatic (function : Function) : Prop where
  slots : ∀ size ∈ function.slots, IsArraySize size
  parameters : ∀ label, ∀ value ∈ (function.block label).parameters,
    function.type? value = some .i64
  instructions : ∀ label, ∀ instruction ∈ (function.block label).instructions,
    instruction.Idiomatic function

theorem Instruction.Idiomatic.extend {function : Function} {instruction : Instruction}
    (idiomatic : instruction.Idiomatic function) (more : Nat → List Value) :
    (instruction.extend more).Idiomatic function := by
  obtain ⟨types, proper, results⟩ := idiomatic
  refine ⟨types, ?_, results⟩
  rw [Instruction.extend]
  generalize instruction.operation = operation at proper
  cases proper with
  | constant => exact .constant
  | arithmetic onLeft onRight => exact .arithmetic onLeft onRight
  | compare onLeft onRight => exact .compare onLeft onRight
  | signExtend narrow => exact .signExtend narrow
  | load word => exact .load word
  | slotAddress => exact .slotAddress
  | slotStore word inside => exact .slotStore word inside
  | call words found wanted given => exact .call words found wanted given
  | branch typed either apart => exact .branch typed either apart
  | jump => exact .jump
  | ret word => exact .ret word

/-! ## Idiomatic recordings -/

namespace Recording

variable {recording later : Recording}

theorem hasRoom_grows (grows : Grows recording later) {slot : Slot} {index : Nat}
    (room : recording.builder.function.HasRoom slot index) :
    later.builder.function.HasRoom slot index := by
  obtain ⟨size, found, fits⟩ := room
  exact ⟨size, grows.slot _ _ found, fits⟩

theorem idiomatic_grows (grows : Grows recording later) {operation : Operation}
    {types : List MachineType}
    (proper : operation.Idiomatic recording.builder.function types) :
    operation.Idiomatic later.builder.function types := by
  cases proper with
  | constant => exact .constant
  | arithmetic onLeft onRight => exact .arithmetic (grows.type? onLeft) (grows.type? onRight)
  | compare onLeft onRight => exact .compare (grows.type? onLeft) (grows.type? onRight)
  | signExtend narrow => exact .signExtend (grows.type? narrow)
  | load word => exact .load (grows.type? word)
  | slotAddress => exact .slotAddress
  | slotStore word inside =>
      exact .slotStore (grows.type? word) fun earlier below =>
        hasRoom_grows grows (inside earlier below)
  | call words found wanted given =>
      exact .call (fun argument member => grows.type? (words argument member))
        (grows.reference _ _ found) wanted given
  | branch typed either apart => exact .branch (grows.type? typed) either apart
  | jump => exact .jump
  | ret word => exact .ret (grows.type? word)

/-- Slots are for arrays, values for variables are words, and so are the parameters of blocks;
what was appended to the blocks is idiomatic. -/
structure Idiomatic (recording : Recording) : Prop where
  slots : ∀ size ∈ recording.builder.function.slots, IsArraySize size
  declared : ∀ var type, recording.builder.declared.lookup var = some type → type = .i64
  parameters : ∀ label, ∀ value ∈ (recording.builder.function.block label).parameters,
    recording.builder.function.type? value = some .i64
  zeros : ∀ label, ∀ zero ∈ recording.zeros label,
    zero.1 = .i64 ∧ recording.builder.function.type? zero.2 = some .i64
  appended : ∀ label, ∀ instruction ∈ emitted (recording.script label),
    instruction.Idiomatic recording.builder.function

namespace Idiomatic

theorem start (id : FunctionId) (declaration : Declaration) :
    (Recording.start id declaration).Idiomatic := by
  constructor
  · intro size member
    simp [Recording.start, History.start, Builder.start, Function.start] at member
  · intro var type declared
    cases declared
  · intro label value member
    simp [Recording.start, History.start, Builder.start, Function.start, Function.block,
      Function.block?, Block.empty] at member
  · intro label zero member
    cases member
  · intro label instruction member
    simp [Recording.start, History.start] at member

/-- Nothing happened to parameters and variables, and what was added is idiomatic. -/
theorem grow (idiomatic : recording.Idiomatic) (grows : Grows recording later)
    (slots : later.builder.function.slots = recording.builder.function.slots)
    (declared : later.builder.declared = recording.builder.declared)
    (parameters : ∀ label, (later.builder.function.block label).parameters =
      (recording.builder.function.block label).parameters)
    (zeros : ∀ label, ∀ zero ∈ later.zeros label, zero ∈ recording.zeros label ∨
      zero.1 = .i64 ∧ later.builder.function.type? zero.2 = some .i64)
    (appended : ∀ label, ∀ instruction ∈ emitted (later.script label),
      instruction ∈ emitted (recording.script label) ∨
        instruction.Idiomatic later.builder.function) : later.Idiomatic where
  slots size member := by
    rw [slots] at member
    exact idiomatic.slots size member
  declared var type known := by
    rw [declared] at known
    exact idiomatic.declared var type known
  parameters label value member := by
    rw [parameters] at member
    exact grows.type? (idiomatic.parameters label value member)
  zeros label zero member := by
    rcases zeros label zero member with old | new
    · obtain ⟨wide, typed⟩ := idiomatic.zeros label zero old
      exact ⟨wide, grows.type? typed⟩
    · exact new
  appended label instruction member := by
    rcases appended label instruction member with old | new
    · obtain ⟨types, proper, results⟩ := idiomatic.appended label instruction old
      exact ⟨types, idiomatic_grows grows proper, results.imp fun _ _ => grows.type?⟩
    · exact new

/-- A block gets one more parameter, which is a word. -/
theorem widen (idiomatic : recording.Idiomatic) (grows : Grows recording later) {label : Label}
    (inside : recording.builder.hasBlock label = true)
    (function : later.builder.function = (recording.builder.withParameter label .i64).function)
    (declared : later.builder.declared = recording.builder.declared)
    (zeros : later.zeros = recording.zeros) (script : later.script = recording.script) :
    later.Idiomatic where
  slots size member := by
    rw [function] at member
    exact idiomatic.slots size member
  declared var type known := by
    rw [declared] at known
    exact idiomatic.declared var type known
  parameters other value member := by
    rw [function, Builder.block_withParameter _ _ _ _ inside] at member
    have old : value ∈ (recording.builder.function.block other).parameters →
        later.builder.function.type? value = some .i64 := fun member =>
      grows.type? (idiomatic.parameters other value member)
    split at member
    · rename_i same
      subst same
      rcases List.mem_append.mp member with before | new
      · exact old before
      · rw [List.mem_singleton.mp new, function]
        exact Builder.type?_withParameter _ _ _
    · exact old member
  zeros other zero member := by
    rw [zeros] at member
    obtain ⟨wide, typed⟩ := idiomatic.zeros other zero member
    exact ⟨wide, grows.type? typed⟩
  appended other instruction member := by
    rw [script] at member
    obtain ⟨types, proper, results⟩ := idiomatic.appended other instruction member
    exact ⟨types, idiomatic_grows grows proper, results.imp fun _ _ => grows.type?⟩

theorem resolve (idiomatic : recording.Idiomatic) (step : Resolve recording later) :
    later.Idiomatic := by
  have grows := step.grows
  cases step with
  | pend label var type inside unsealed unknown fresh declared =>
      cases idiomatic.declared var type declared
      exact idiomatic.widen grows inside rfl rfl rfl rfl
  | zero label var type inside closed alone unknown fresh declared =>
      cases idiomatic.declared var type declared
      refine idiomatic.grow grows rfl rfl (by simp [zero]) (fun other entry member => ?_)
        fun _ _ => .inl
      by_cases same : other = label
      · subst same
        simp only [zero, Function.update_self] at member
        rcases List.mem_cons.mp member with rfl | old
        · exact .inr ⟨rfl, Builder.type?_withZero _ _ _⟩
        · exact .inl old
      · simp only [zero, Function.update_of_ne same] at member
        exact .inl member
  | inherit label var edge value inside closed only source fresh =>
      exact idiomatic.grow grows rfl rfl (by simp [inherit]) (fun _ _ => .inl) fun _ _ => .inl
  | join label var type inside closed several unknown fresh declared =>
      cases idiomatic.declared var type declared
      exact idiomatic.widen grows inside rfl rfl rfl rfl
  | pass label edge var param value member next source =>
      exact idiomatic.grow grows rfl rfl (by simp [pass]) (fun _ _ => .inl) fun _ _ => .inl

theorem resolves (idiomatic : recording.Idiomatic) (steps : Resolves recording later) :
    later.Idiomatic := by
  induction steps with
  | refl => exact idiomatic
  | tail _ step induction => exact induction.resolve step

end Idiomatic

end Recording

def Deed.Idiomatic (recording : Recording) : Deed → Prop
  | .parameter _ type | .declare _ type => type = .i64
  | .reserve size => IsArraySize size
  | .emit operation types => operation.Idiomatic recording.builder.function types
  | _ => True

/-- The results of an operation get their types. -/
theorem Performs.results_emit {entry : Option Label} {recording later : Recording}
    {operation : Operation} {types : List MachineType}
    (performs : Performs entry (.emit operation types) recording later)
    (proper : operation.Idiomatic recording.builder.function types) :
    List.Forall₂ (fun value type => later.builder.function.type? value = some type)
      (recording.builder.nextValues types.length) types := by
  cases proper with
  | slotStore | branch | jump | ret => exact .nil
  | _ => exact .cons performs.type?_emit .nil

theorem Recording.Idiomatic.performs {entry : Option Label} {recording later : Recording}
    {deed : Deed} (idiomatic : recording.Idiomatic) (performs : Performs entry deed recording later)
    (proper : deed.Idiomatic recording) : later.Idiomatic := by
  have grows := Moves.grows performs.moves
  cases performs with
  | create =>
      exact idiomatic.grow grows rfl rfl (by simp [create]) (fun _ _ => .inl) fun _ _ => .inl
  | switch label inside left =>
      exact idiomatic.grow grows (by simp [switch, Builder.withCurrent]; split <;> rfl)
        (by simp [switch, Builder.withCurrent]; split <;> rfl)
        (by simp [switch]) (fun _ _ => .inl) fun _ _ => .inl
  | parameter label type inside ready early =>
      cases proper
      exact idiomatic.widen grows inside rfl rfl rfl rfl
  | declare var type unknown =>
      cases proper
      refine { idiomatic with declared := fun other type known => ?_ }
      simp only [declare, List.lookup_append] at known
      rcases Option.or_eq_some_iff.mp known with old | ⟨_, new⟩
      · exact idiomatic.declared other type old
      · rw [List.lookup_cons] at new
        split at new <;> simp at new
        exact new.symm
  | define label var type value current declared typed early =>
      exact idiomatic.grow grows rfl rfl (fun _ => rfl) (fun _ _ => .inl)
        fun _ _ member => .inl (by simpa [define] using member)
  | use label var value looked settled current holds early =>
      have middle := idiomatic.resolves looked
      have reads : Move entry _ _ := .use label var value current holds early
      exact middle.grow reads.grows rfl rfl (fun _ => rfl) (fun _ _ => .inl)
        fun _ _ member => .inl (by simpa [use] using member)
  | close label looked settled inside unsealed complete =>
      have middle := idiomatic.resolves looked
      have closes : Move entry _ _ := .close label inside unsealed complete
      exact middle.grow closes.grows rfl rfl (fun _ => rfl) (fun _ _ => .inl) fun _ _ => .inl
  | emit label operation types current unfinished operands fits =>
      have emits : Performs entry _ _ _ :=
        .emit label operation types current unfinished operands fits
      have results := emits.results_emit proper
      refine idiomatic.grow grows (by simp [Recording.emit, Builder.withInstruction]; rfl)
        (by simp [Recording.emit, Builder.withInstruction]; rfl)
        (by simp [Recording.emit]) (fun _ _ => .inl) fun other instruction member => ?_
      rw [mem_emitted] at member
      rcases recording.mem_noted.mp member with old | ⟨_, new⟩
      · exact .inl (mem_emitted.mpr old)
      · cases new
        exact .inr ⟨types, idiomatic_grows grows proper, results⟩
  | refer external unknown =>
      exact idiomatic.grow grows rfl rfl (fun _ => rfl) (fun _ _ => .inl) fun _ _ => .inl
  | reserve size =>
      refine { idiomatic with
        slots := fun other member => ?_
        appended := fun label instruction member => ?_ }
      · rcases Array.mem_push.mp member with old | rfl
        · exact idiomatic.slots other old
        · exact proper
      · obtain ⟨types, properThere, results⟩ := idiomatic.appended label instruction member
        exact ⟨types, idiomatic_grows grows properThere, results.imp fun _ _ => grows.type?⟩

theorem Recording.Idiomatic.function {recording : Recording} (idiomatic : recording.Idiomatic)
    (sound : Sound recording) : recording.builder.function.Idiomatic where
  slots := idiomatic.slots
  parameters := idiomatic.parameters
  instructions label instruction member := by
    rcases sound.scripted.mem_code.mp member with
      ⟨⟨type, value⟩, inside, rfl⟩ | ⟨original, inside, rfl⟩
    · obtain ⟨wide, typed⟩ := idiomatic.zeros label (type, value) inside
      refine ⟨[.i64], ?_, .cons typed .nil⟩
      simp only at wide
      rw [Builder.zeroInstruction, wide]
      exact .constant
    · exact (idiomatic.appended label original inside).extend _

theorem Deed.Idiomatic.grows {recording later : Recording} {deed : Deed}
    (proper : deed.Idiomatic recording) (grows : Grows recording later) :
    deed.Idiomatic later := by
  cases deed with
  | emit operation types => exact Recording.idiomatic_grows grows proper
  | _ => exact proper

theorem Recording.Idiomatic.performsAll {entry : Option Label} {recording later : Recording}
    {deeds : List Deed} (idiomatic : recording.Idiomatic)
    (performs : PerformsAll entry deeds recording later)
    (proper : ∀ deed ∈ deeds, deed.Idiomatic recording) : later.Idiomatic := by
  induction performs with
  | nil => exact idiomatic
  | cons first _ induction =>
      rw [List.forall_mem_cons] at proper
      exact induction (idiomatic.performs first proper.1) fun deed member =>
        (proper.2 deed member).grows (Moves.grows first.moves)

def Module.Wordy (module : Module) : Prop :=
  ∀ id declaration, module.declaration? id = some declaration →
    (∀ type ∈ declaration.prototype.parameters, type = .i64) ∧
      declaration.prototype.results = [.i64]

end Ssa

/-! ## Lowering is idiomatic -/

namespace Lowering

variable {setting : Setting} {names : List String} {first middle last : Stage}

theorem Does.idiomatic {deeds : List Deed} (does : Does deeds first last)
    (idiomatic : first.recording.Idiomatic)
    (proper : ∀ deed ∈ deeds, deed.Idiomatic first.recording) : last.recording.Idiomatic :=
  idiomatic.performsAll does.performs proper

theorem Does.emit_idiomatic {operation : Operation} {types : List MachineType}
    (does : Does [.emit operation types] first last) (idiomatic : first.recording.Idiomatic)
    (proper : operation.Idiomatic first.recording.builder.function types) :
    last.recording.Idiomatic :=
  does.idiomatic idiomatic (List.forall_mem_singleton.mpr proper)

theorem Does.hop_idiomatic {operation : Operation} {target : Label}
    (does : Does (hopping operation target) first last) (idiomatic : first.recording.Idiomatic)
    (proper : operation.Idiomatic first.recording.builder.function []) :
    last.recording.Idiomatic :=
  does.idiomatic idiomatic (by simpa [hopping, Deed.Idiomatic] using proper)

theorem Binds.idiomatic {name : String} {value : Value} (binds : Binds name value first last)
    (idiomatic : first.recording.Idiomatic) : last.recording.Idiomatic :=
  idiomatic.performsAll binds.performs (by simp [Deed.Idiomatic])

theorem Refers.idiomatic {name : String} {reference : Reference}
    (refers : Refers setting name first reference last) (idiomatic : first.recording.Idiomatic) :
    last.recording.Idiomatic := by
  cases refers with
  | known | again => exact idiomatic
  | @new id declaration fresh callable unknown declared =>
      have refers : Performs none _ first.recording _ :=
        .refer ⟨id, declaration.name, declaration.prototype⟩ unknown
      exact idiomatic.performs refers trivial

theorem Forks.idiomatic {test result : Value} (forks : Forks test first result last)
    (typed : first.HasType test .i64) (idiomatic : first.recording.Idiomatic) :
    last.recording.Idiomatic := by
  obtain ⟨creates, merges, branches⟩ := forks
  have made := creates.idiomatic idiomatic (by simp [Deed.Idiomatic])
  have joined := merges.idiomatic made (by simp [Deed.Idiomatic])
  have typed := typed.reaches (creates.reaches.trans merges.reaches)
  exact branches.hop_idiomatic joined (.branch typed (.inr rfl) (by simp))

theorem Enters.idiomatic {limit round one : Value} (enters : Enters limit first round one last)
    (typed : first.HasType limit .i64) (idiomatic : first.recording.Idiomatic) :
    last.recording.Idiomatic := by
  obtain ⟨creates, counts, rounds, starts, jumps, compares, branches⟩ := enters
  have made := creates.idiomatic idiomatic (by simp [Deed.Idiomatic])
  have counted := counts.idiomatic made (by simp [Deed.Idiomatic])
  have rounded := rounds.idiomatic counted (by simp [Deed.Idiomatic])
  have started := starts.emit_idiomatic rounded .constant
  have jumped := jumps.idiomatic started (by
    simpa [Deed.Idiomatic] using Operation.Idiomatic.jump)
  have between := rounds.reaches.trans (starts.reaches.trans jumps.reaches)
  have limited := typed.reaches (creates.reaches.trans (counts.reaches.trans between))
  have compared := compares.emit_idiomatic jumped
    (@Operation.Idiomatic.compare _ .greater _ _ (counts.parameter_hasType.reaches between) limited)
  exact branches.hop_idiomatic compared (.branch compares.emit_hasType (.inl rfl) (by simp))

theorem Enters.hasTypes {limit round one : Value} (enters : Enters limit first round one last) :
    last.HasType round .i64 ∧ last.HasType one .i64 := by
  obtain ⟨creates, counts, rounds, starts, jumps, compares, branches⟩ := enters
  have after := jumps.reaches.trans (compares.reaches.trans branches.reaches)
  exact ⟨rounds.parameter_hasType.reaches (starts.reaches.trans after),
    starts.emit_hasType.reaches after⟩

theorem Does.length_arguments {reference : Reference} {arguments : List Value}
    {types : List MachineType} {external : External}
    (does : Does [.emit (.call reference arguments) types] first last)
    (found : first.recording.builder.function.references[reference.index]? = some external) :
    arguments.length = external.prototype.parameters.length := by
  obtain ⟨_ | ⟨performs, _ | _⟩, _⟩ := does
  obtain ⟨other, again, wanted, _⟩ : (Operation.call reference arguments).Fits
      first.recording.builder types := by
    generalize last.recording = recording at performs
    cases performs
    assumption
  rw [found] at again
  cases again
  exact wanted

theorem Does.hasRoom {value : Value} {slot : Slot} {index : Nat} {types : List MachineType}
    (does : Does [.emit (.slotStore value slot (wordOffset index)) types] first last)
    (typed : first.HasType value .i64) :
    first.recording.builder.function.HasRoom slot index := by
  obtain ⟨_ | ⟨performs, _ | _⟩, _⟩ := does
  obtain ⟨size, found, fits, _⟩ : (Operation.slotStore value slot (wordOffset index)).Fits
      first.recording.builder types := by
    generalize last.recording = recording at performs
    cases performs
    assumption
  rw [typed.type_eq] at fits
  exact ⟨size, found, fits⟩

def Work.Begun (stage : Stage) : Work → Prop
  | .elements slot index _ => ∀ earlier < index,
    stage.recording.builder.function.HasRoom slot earlier
  | _ => True

theorem Lowers.idiomatic {work : Work} {values : List Value} (wordy : setting.module.Wordy)
    (lowers : Lowers setting work first values last) :
    ∀ {names}, Sound first.recording → Tabled setting names first → work.Begun first →
      first.recording.Idiomatic → last.recording.Idiomatic := by
  induction lowers with
  | integer emits | boolean emits =>
      intro names _ _ _ idiomatic
      exact emits.emit_idiomatic idiomatic .constant
  | ident _ uses =>
      intro names _ _ _ idiomatic
      exact uses.idiomatic idiomatic (by simp [Deed.Idiomatic])
  | comparison onLeft onRight compares widens left right =>
      intro names sound tabled _ idiomatic
      have soundThen := onLeft.reaches.sound sound
      have tabledThen := onLeft.tabled tabled
      have leftTyped := (onLeft.hasType sound tabled _ List.mem_cons_self).reaches onRight.reaches
      have rightTyped := onRight.hasType soundThen tabledThen _ List.mem_cons_self
      have compared := compares.emit_idiomatic
        (right soundThen tabledThen trivial (left sound tabled trivial idiomatic))
        (.compare leftTyped rightTyped)
      exact widens.emit_idiomatic compared (.signExtend compares.emit_hasType)
  | arithmetic onLeft onRight emits left right =>
      intro names sound tabled _ idiomatic
      have soundThen := onLeft.reaches.sound sound
      have tabledThen := onLeft.tabled tabled
      have leftTyped := (onLeft.hasType sound tabled _ List.mem_cons_self).reaches onRight.reaches
      have rightTyped := onRight.hasType soundThen tabledThen _ List.mem_cons_self
      exact emits.emit_idiomatic
        (right soundThen tabledThen trivial (left sound tabled trivial idiomatic))
        (.arithmetic leftTyped rightTyped)
  | bind _ binds inner =>
      intro names sound tabled _ idiomatic
      exact binds.idiomatic (inner sound tabled trivial idiomatic)
  | sequence onLeft _ left right =>
      intro names sound tabled _ idiomatic
      exact right (onLeft.reaches.sound sound) (onLeft.tabled tabled) trivial
        (left sound tabled trivial idiomatic)
  | call refers onArguments emits arguments =>
      intro names sound tabled _ idiomatic
      have soundNamed := refers.reaches.sound sound
      have tabledNamed := refers.tabled tabled
      have ready := arguments soundNamed tabledNamed trivial (refers.idiomatic idiomatic)
      obtain ⟨id, declaration, _, known, found⟩ := refers.external tabled
      have typed := onArguments.hasType soundNamed tabledNamed
      have still := (Moves.grows onArguments.reaches.moves).reference _ _ found
      obtain ⟨parameters, results⟩ := wordy id declaration known
      refine emits.emit_idiomatic ready (.call typed still ?_ results)
      rw [List.eq_replicate_of_mem parameters, List.map_const', emits.length_arguments still]
  | conditional onTest forks leftArm turns rightArm joins test left right =>
      intro names sound tabled _ idiomatic
      have soundTested := onTest.reaches.sound sound
      have tabledTested := onTest.tabled tabled
      have typed := onTest.hasType sound tabled _ List.mem_cons_self
      have opened := forks.idiomatic typed (test sound tabled trivial idiomatic)
      have soundOpened := forks.reaches.sound soundTested
      have tabledOpened := forks.tabled tabledTested
      have filled := left soundOpened tabledOpened trivial opened
      have turned := turns.hop_idiomatic filled .jump
      have soundTurned := turns.reaches.sound (leftArm.reaches.sound soundOpened)
      have tabledTurned := turns.tabled rfl (leftArm.tabled tabledOpened)
      exact joins.hop_idiomatic (right soundTurned tabledTurned trivial turned) .jump
  | each onBound enters binds inLoop advances leaves emits bound body =>
      intro names sound tabled _ idiomatic
      have typed := onBound.hasType sound tabled _ List.mem_cons_self
      have opened := enters.idiomatic typed (bound sound tabled trivial idiomatic)
      have soundOpened := enters.reaches.sound (onBound.reaches.sound sound)
      have tabledOpened := enters.tabled (onBound.tabled tabled)
      have filled := body (binds.reaches.sound soundOpened) (binds.tabled tabledOpened) trivial
        (binds.idiomatic opened)
      obtain ⟨roundTyped, oneTyped⟩ := enters.hasTypes
      have inside := binds.reaches.trans inLoop.reaches
      have advanced := advances.emit_idiomatic filled
        (.arithmetic (roundTyped.reaches inside) (oneTyped.reaches inside))
      have left := leaves.idiomatic advanced (by
        simpa [leaving, Deed.Idiomatic] using Operation.Idiomatic.jump)
      exact emits.emit_idiomatic left .constant
  | array reserves counts starts stores locates elements =>
      intro names sound tabled _ idiomatic
      have reserved := reserves.idiomatic idiomatic (List.forall_mem_singleton.mpr ⟨_, rfl⟩)
      have counted := counts.emit_idiomatic reserved .constant
      have room := starts.hasRoom counts.emit_hasType
      have started := starts.emit_idiomatic counted (.slotStore counts.emit_hasType
        fun earlier below => by rw [Nat.le_zero.mp below]; exact room)
      have filled := elements (starts.reaches.sound (counts.reaches.sound
        (reserves.reaches.sound sound))) (starts.tabled rfl (counts.tabled rfl
          (reserves.tabled rfl tabled))) (fun earlier below => by
            rw [Nat.lt_one_iff.mp below]
            exact Recording.hasRoom_grows (Moves.grows starts.reaches.moves) room) started
      exact locates.emit_idiomatic filled .slotAddress
  | index onTarget onPosition ones words places scales locates loads target position =>
      intro names sound tabled _ idiomatic
      have soundThen := onTarget.reaches.sound sound
      have tabledThen := onTarget.tabled tabled
      have ready := position soundThen tabledThen trivial (target sound tabled trivial idiomatic)
      have base := (onTarget.hasType sound tabled _ List.mem_cons_self).reaches onPosition.reaches
      have offset := onPosition.hasType soundThen tabledThen _ List.mem_cons_self
      have one := ones.emit_idiomatic ready .constant
      have word := words.emit_idiomatic one .constant
      have placed := places.emit_idiomatic word (.arithmetic
        (offset.reaches (ones.reaches.trans words.reaches))
        (ones.emit_hasType.reaches words.reaches))
      have scaled := scales.emit_idiomatic placed (.arithmetic places.emit_hasType
        (words.emit_hasType.reaches places.reaches))
      have located := locates.emit_idiomatic scaled (.arithmetic
        (base.reaches (ones.reaches.trans (words.reaches.trans (places.reaches.trans
          scales.reaches)))) scales.emit_hasType)
      exact loads.emit_idiomatic located (.load locates.emit_hasType)
  | length onTarget loads target =>
      intro names sound tabled _ idiomatic
      exact loads.emit_idiomatic (target sound tabled trivial idiomatic)
        (.load (onTarget.hasType sound tabled _ List.mem_cons_self))
  | nil | stop =>
      intro names _ _ _ idiomatic
      exact idiomatic
  | cons onHead _ head tail =>
      intro names sound tabled _ idiomatic
      exact tail (onHead.reaches.sound sound) (onHead.tabled tabled) trivial
        (head sound tabled trivial idiomatic)
  | @store slot index _ _ _ first middle stored _ onHead stores _ head tail =>
      intro names sound tabled begun idiomatic
      have soundThen := onHead.reaches.sound sound
      have tabledThen := onHead.tabled tabled
      have typed := onHead.hasType sound tabled _ List.mem_cons_self
      have inside : ∀ earlier ≤ index, middle.recording.builder.function.HasRoom slot earlier := by
        intro earlier below
        rcases Nat.lt_or_eq_of_le below with before | rfl
        · exact Recording.hasRoom_grows (Moves.grows onHead.reaches.moves) (begun earlier before)
        · exact stores.hasRoom typed
      have stored := stores.emit_idiomatic (head sound tabled trivial idiomatic)
        (.slotStore typed inside)
      exact tail (stores.reaches.sound soundThen) (stores.tabled rfl tabledThen)
        (fun earlier below => Recording.hasRoom_grows (Moves.grows stores.reaches.moves)
          (inside earlier (Nat.le_of_lt_succ below))) stored

theorem BindsAll.idiomatic {names : List String} {values : List Value}
    (binds : BindsAll names values first last) (idiomatic : first.recording.Idiomatic) :
    last.recording.Idiomatic := by
  induction binds with
  | nil => exact idiomatic
  | cons binds _ induction => exact induction (binds.idiomatic idiomatic)

theorem Stage.idiomatic_opened (id : FunctionId) {declaration : Declaration}
    (words : ∀ type ∈ declaration.prototype.parameters, type = .i64) :
    (Stage.opened id declaration).recording.Idiomatic := by
  refine (Recording.Idiomatic.start id declaration).performsAll
    (Stage.performs_opened id declaration) fun deed member => ?_
  simp only [Stage.opening, List.cons_append, List.mem_cons, List.mem_append, List.mem_map,
    List.not_mem_nil, or_false] at member
  rcases member with rfl | ⟨type, inside, rfl⟩ | rfl | rfl
  · trivial
  · exact words type inside
  · trivial
  · trivial

/-- A definition becomes an idiomatic function. -/
theorem Compiles.idiomatic {definition : TypedDefinition} {id : FunctionId}
    {declaration : Declaration} {bound lowered : Stage} {result : Value}
    (compiles : Compiles setting definition id declaration bound lowered result last)
    (wordy : setting.module.Wordy)
    (words : ∀ type ∈ declaration.prototype.parameters, type = .i64) :
    last.recording.builder.function.Idiomatic := by
  have whole := compiles.sound
  obtain ⟨binds, lowers, returns⟩ := compiles
  have ready := Stage.ready_opened id declaration setting
  have tabled := binds.tabled ready.tabled
  have sound := binds.reaches.sound ready.sound
  have lowered := lowers.idiomatic wordy sound tabled trivial
    (binds.idiomatic (Stage.idiomatic_opened id words))
  have typed := lowers.hasType sound tabled result List.mem_cons_self
  exact (returns.emit_idiomatic lowered (.ret typed)).function whole

end Lowering

end ExprLang
