import ExprLang.Proofs.Ssa.Update

/-!
# Recordings

A recording is a history with an account of what lookups have done to the function: the zeros
in front of each block, its parameters for variables, the arguments that branches got for
them, and the value that each variable has at the start of a block. `Move` says what building
can do to a recording in one go, as long as nothing is done wrong; everything that holds of
all functions under construction is derived from it.
-/

namespace ExprLang.Ssa

/-! ## Instructions that get more arguments -/

def Operation.extend (more : Nat → List Value) : Operation → Operation
  | branch condition onTrue onFalse =>
    branch condition ⟨onTrue.block, onTrue.arguments ++ more 0⟩
      ⟨onFalse.block, onFalse.arguments ++ more 1⟩
  | jump target => jump ⟨target.block, target.arguments ++ more 0⟩
  | operation => operation

def Instruction.extend (more : Nat → List Value) (instruction : Instruction) : Instruction :=
  { instruction with operation := instruction.operation.extend more }

namespace Operation

@[simp] theorem operands_extend (more : Nat → List Value) (operation : Operation) :
    (operation.extend more).operands = operation.operands := by
  cases operation <;> rfl

@[simp] theorem opcode_extend (more : Nat → List Value) (operation : Operation) :
    (operation.extend more).opcode = operation.opcode := by
  cases operation <;> rfl

theorem destinations_extend (more : Nat → List Value) (operation : Operation) (side : Nat) :
    (operation.extend more).destinations[side]? =
      (operation.destinations[side]?).map fun destination =>
        ⟨destination.block, destination.arguments ++ more side⟩ := by
  cases operation with
  | branch condition onTrue onFalse =>
      rcases side with _ | _ | _ <;> rfl
  | jump target =>
      rcases side with _ | _ <;> rfl
  | _ => rfl

@[simp] theorem map_block_destinations_extend (more : Nat → List Value) (operation : Operation) :
    (operation.extend more).destinations.map Destination.block =
      operation.destinations.map Destination.block := by
  cases operation <;> rfl

theorem extend_of_destinations_eq_nil {operation : Operation}
    (empty : operation.destinations = []) (more : Nat → List Value) :
    operation.extend more = operation := by
  cases operation <;> first | rfl | cases empty

theorem extend_nil {operation : Operation} {more : Nat → List Value}
    (empty : ∀ side, more side = []) : operation.extend more = operation := by
  cases operation <;> simp [extend, empty]

theorem changeDestination_extend {operation : Operation} {side : Nat} {more : Nat → List Value}
    (valid : side < operation.destinations.length) (value : Value) :
    (operation.extend more).changeDestination
        (fun destination => { destination with arguments := destination.arguments ++ [value] })
        side =
      operation.extend (Function.update more side (more side ++ [value])) := by
  cases operation with
  | branch condition onTrue onFalse =>
      rcases side with _ | _ | side
      · simp [extend, changeDestination]
      · simp [extend, changeDestination]
      · simp only [destinations, List.length_cons, List.length_nil] at valid
        omega
  | jump target =>
      rcases side with _ | side
      · simp [extend, changeDestination]
      · simp [destinations] at valid
  | _ => simp [destinations] at valid

theorem destinations_eq_nil {operation : Operation} (plain : operation.isTerminator = false) :
    operation.destinations = [] := by
  cases operation <;> first | rfl | cases plain

end Operation

@[simp] theorem Instruction.results_extend (more : Nat → List Value)
    (instruction : Instruction) : (instruction.extend more).results = instruction.results := rfl

@[simp] theorem Instruction.isTerminator_extend (more : Nat → List Value)
    (instruction : Instruction) :
    (instruction.extend more).isTerminator = instruction.isTerminator := by
  simp [extend, isTerminator, Operation.isTerminator]

theorem Instruction.extend_of_plain {instruction : Instruction}
    (plain : instruction.isTerminator = false) (more : Nat → List Value) :
    instruction.extend more = instruction := by
  rw [extend, Operation.extend_of_destinations_eq_nil (Operation.destinations_eq_nil plain)]

theorem Instruction.extend_nil {instruction : Instruction} {more : Nat → List Value}
    (empty : ∀ side, more side = []) : instruction.extend more = instruction := by
  rw [extend, Operation.extend_nil empty]

/-! ## Contents of variables -/

def Event.settle (known : Variable → Option Value) : Event → Variable → Option Value
  | .define var value => Function.update known var (some value)
  | _ => known

def settle (known : Variable → Option Value) (events : List Event) : Variable → Option Value :=
  events.foldl Event.settle known

theorem settle_append (known : Variable → Option Value) (first second : List Event) :
    settle known (first ++ second) = settle (settle known first) second :=
  List.foldl_append

@[simp] theorem settle_nil (known : Variable → Option Value) : settle known [] = known := rfl

@[simp] theorem settle_define (known : Variable → Option Value) (var : Variable) (value : Value)
    (events : List Event) :
    settle known (.define var value :: events) =
      settle (Function.update known var (some value)) events := rfl

@[simp] theorem settle_use (known : Variable → Option Value) (var : Variable) (value : Value)
    (events : List Event) : settle known (.use var value :: events) = settle known events := rfl

@[simp] theorem settle_instruction (known : Variable → Option Value) (instruction : Instruction)
    (events : List Event) :
    settle known (.instruction instruction :: events) = settle known events := rfl

theorem settle_eq_some {known : Variable → Option Value} {events : List Event} {var : Variable}
    {value : Value} (holds : settle known events var = some value) :
    known var = some value ∨ .define var value ∈ events := by
  induction events generalizing known with
  | nil => exact .inl holds
  | cons event rest induction =>
      cases event with
      | define given content =>
          rw [settle_define] at holds
          rcases induction holds with before | later
          · by_cases same : var = given
            · subst same
              rw [Function.update_self] at before
              cases before
              exact .inr List.mem_cons_self
            · rw [Function.update_of_ne same] at before
              exact .inl before
          · exact .inr (List.mem_cons_of_mem _ later)
      | use _ _ => exact (induction holds).imp_right (List.mem_cons_of_mem _)
      | instruction _ => exact (induction holds).imp_right (List.mem_cons_of_mem _)

theorem settle_eq_none {known : Variable → Option Value} {events : List Event} {var : Variable} :
    settle known events var = none ↔
      known var = none ∧ ∀ value, .define var value ∉ events := by
  induction events generalizing known with
  | nil => simp
  | cons event rest induction =>
      cases event with
      | define given content =>
          rw [settle_define, induction]
          by_cases same : var = given
          · subst same
            simp only [Function.update_self, reduceCtorEq, false_and, List.mem_cons,
              false_iff, not_and, not_forall]
            intro _
            exact ⟨content, not_not.mpr (.inl rfl)⟩
          · simp [same]
      | use _ _ => simp [induction]
      | instruction _ => simp [induction]

theorem settle_of_undefined {known : Variable → Option Value} {events : List Event}
    {var : Variable} (undefined : ∀ value, .define var value ∉ events) :
    settle known events var = known var := by
  induction events generalizing known with
  | nil => rfl
  | cons event rest induction =>
      have later : ∀ value, .define var value ∉ rest := fun value member =>
        undefined value (List.mem_cons_of_mem event member)
      cases event with
      | define given content =>
          have different : var ≠ given := by
            intro same
            subst same
            exact undefined content List.mem_cons_self
          rw [settle_define, induction later, Function.update_of_ne different]
      | use _ _ => exact induction later
      | instruction _ => exact induction later

theorem settle_update {known : Variable → Option Value} {events : List Event} {var : Variable}
    (undefined : ∀ value, .define var value ∉ events) (value : Value) :
    settle (Function.update known var (some value)) events =
      Function.update (settle known events) var (some value) := by
  funext asked
  by_cases same : asked = var
  · subst same
    rw [Function.update_self, settle_of_undefined undefined, Function.update_self]
  · rw [Function.update_of_ne same]
    induction events generalizing known with
    | nil => rw [settle_nil, settle_nil, Function.update_of_ne same]
    | cons event rest induction =>
        have later : ∀ value, .define var value ∉ rest := fun value member =>
          undefined value (List.mem_cons_of_mem event member)
        cases event with
        | define given content =>
            have different : given ≠ var := by
              intro equal
              subst equal
              exact undefined content List.mem_cons_self
            rw [settle_define, Function.update_comm different.symm, settle_define]
            exact induction later
        | use _ _ => exact induction later
        | instruction _ => exact induction later

/-! ## What an operation needs -/

/-- What a builder checks before it accepts an operation with results of the given types. -/
def Operation.Fits (builder : Builder) (types : List MachineType) : Operation → Prop
  | constant type _ => types = [type]
  | arithmetic _ left right =>
    builder.function.type left = builder.function.type right ∧
      types = [builder.function.type left]
  | compare _ left right =>
    builder.function.type left = builder.function.type right ∧ types = [.i1]
  | signExtend type _ => types = [type]
  | load type _ _ => types = [type]
  | store _ _ _ => types = []
  | slotAddress type slot _ =>
    type = .i64 ∧ slot.index < builder.function.slots.size ∧ types = [.i64]
  | slotStore value slot offset =>
    ∃ size, builder.function.slots[slot.index]? = some size ∧
      offset.toInt + (builder.function.type value).size ≤ size.toNat ∧ types = []
  | call function arguments =>
    ∃ external, builder.function.references[function.index]? = some external ∧
      arguments.length = external.prototype.parameters.length ∧
      types = external.prototype.results
  | branch _ onTrue onFalse =>
    (∀ destination ∈ [onTrue, onFalse], builder.hasBlock destination.block = true ∧
      (builder.state destination.block).isSealed = false) ∧ types = []
  | jump target =>
    builder.hasBlock target.block = true ∧ (builder.state target.block).isSealed = false ∧
      types = []
  | ret _ => types = []
  | malformed _ _ _ => False
  | unknown _ => False

theorem Operation.Fits.destination {builder : Builder} {types : List MachineType}
    {operation : Operation} (fits : operation.Fits builder types) {destination : Destination}
    (member : destination ∈ operation.destinations) :
    builder.hasBlock destination.block = true ∧
      (builder.state destination.block).isSealed = false := by
  cases operation <;> simp only [Operation.destinations, List.not_mem_nil] at member
  case branch condition onTrue onFalse => exact fits.1 destination member
  case jump target =>
    rw [List.mem_singleton] at member
    rw [member]
    exact ⟨fits.1, fits.2.1⟩

theorem Operation.Fits.edgesTo_eq_nil {builder : Builder} {types : List MachineType}
    {operation : Operation} (fits : operation.Fits builder types) {label : Label}
    (closed : (builder.state label).isSealed = true) (source : Label) :
    Builder.edgesTo source label 0 operation.destinations = [] := by
  rw [List.eq_nil_iff_forall_not_mem]
  intro edge member
  obtain ⟨_, _, destination, found, rfl⟩ := Builder.mem_edgesTo.mp member
  have unsealed := (fits.destination (List.mem_of_getElem? found)).2
  rw [closed] at unsealed
  cases unsealed

/-! ## Recordings -/

/-- A history with an account of the lookups: for each block the zeros in front of it (the
newest first), its explicit parameters and its parameters for variables, and what each
variable has been found to hold at its start; for each branch the arguments that were added to
it. -/
structure Recording extends History where
  zeros : Label → List (MachineType × Value)
  explicit : Label → List Value
  joined : Label → List (Variable × Value)
  appended : Edge → List Value
  incoming : Label → Variable → Option Value
  balanced : builder.states.size = builder.function.blocks.size

namespace Recording

def start (id : FunctionId) (declaration : Declaration) : Recording where
  toHistory := .start id declaration
  zeros _ := []
  explicit _ := []
  joined _ := []
  appended _ := []
  incoming _ _ := none
  balanced := rfl

def received (recording : Recording) (label : Label) (var : Variable) (value : Value) :
    Label → Variable → Option Value :=
  Function.update recording.incoming label
    (Function.update (recording.incoming label) var (some value))

theorem received_eq (recording : Recording) (label : Label) (var : Variable) (value : Value)
    (other : Label) (asked : Variable) :
    recording.received label var value other asked =
      if other = label ∧ asked = var then some value else recording.incoming other asked := by
  by_cases same : other = label
  · subst same
    by_cases equal : asked = var
    · subst equal
      simp [received]
    · simp [received, equal]
  · simp [received, same]

theorem incoming_received (recording : Recording) {label : Label} {var : Variable} {value : Value}
    (fresh : recording.incoming label var = none ∨ recording.incoming label var = some value)
    (other : Label) (asked : Variable) (content : Value)
    (holds : recording.incoming other asked = some content) :
    recording.received label var value other asked = some content := by
  rw [received_eq]
  split
  · rename_i here
    rw [here.1, here.2] at holds
    rcases fresh with none | same
    · rw [none] at holds
      cases holds
    · rw [← same, holds]
  · exact holds

def noted (recording : Recording) (label : Label) (event : Event) : Label → List Event :=
  Function.update recording.script label (recording.script label ++ [event])

theorem mem_noted (recording : Recording) {label other : Label} {event item : Event} :
    item ∈ recording.noted label event other ↔
      item ∈ recording.script other ∨ other = label ∧ item = event := by
  by_cases same : other = label
  · subst same
    simp [noted]
  · simp [noted, same]

@[simp] theorem emitted_noted_define (recording : Recording) (label other : Label)
    (var : Variable) (value : Value) :
    emitted (recording.noted label (.define var value) other) =
      emitted (recording.script other) := by
  by_cases same : other = label
  · subst same
    simp [noted]
  · simp [noted, same]

@[simp] theorem emitted_noted_use (recording : Recording) (label other : Label)
    (var : Variable) (value : Value) :
    emitted (recording.noted label (.use var value) other) =
      emitted (recording.script other) := by
  by_cases same : other = label
  · subst same
    simp [noted]
  · simp [noted, same]

/-- An item of a script with one more event is an item of the old script, or that event. -/
theorem noted_split {recording : Recording} {label other : Label} {event item : Event}
    {before behind : List Event}
    (split : recording.noted label event other = before ++ item :: behind) :
    (∃ rest, recording.script other = before ++ item :: rest ∧
        behind = rest ++ if other = label then [event] else []) ∨
      (other = label ∧ event = item ∧ recording.script label = before ∧ behind = []) := by
  by_cases same : other = label
  · subst same
    simp only [noted, Function.update_self] at split
    rcases List.eq_nil_or_concat behind with rfl | ⟨rest, last, rfl⟩
    · obtain ⟨equal, ends⟩ := List.append_inj' split rfl
      cases ends
      exact .inr ⟨rfl, rfl, equal, rfl⟩
    · rw [List.concat_eq_append, ← List.cons_append, ← List.append_assoc] at split
      obtain ⟨equal, ends⟩ := List.append_inj' split rfl
      cases ends
      exact .inl ⟨rest, equal, by simp⟩
  · simp only [noted, Function.update_of_ne same] at split
    exact .inl ⟨behind, split, by simp [same]⟩

/-! ### Changes by lookups -/

def pend (recording : Recording) (label : Label) (var : Variable) (type : MachineType) :
    Recording :=
  let value := recording.builder.nextValue
  { recording with
    builder := ((recording.builder.withParameter label type).withPending label var
      value).withKnown label var value
    joined := Function.update recording.joined label (recording.joined label ++ [(var, value)])
    incoming := recording.received label var value
    balanced := by simp [Builder.withKnown, Builder.withPending, Builder.withParameter,
      Builder.newValue, Builder.modifyState, Builder.modifyBlock, recording.balanced] }

def zero (recording : Recording) (label : Label) (var : Variable) (type : MachineType) :
    Recording :=
  let value := recording.builder.nextValue
  { recording with
    builder := (recording.builder.withZero label type).withKnown label var value
    zeros := Function.update recording.zeros label ((type, value) :: recording.zeros label)
    incoming := recording.received label var value
    balanced := by simp [Builder.withKnown, Builder.withZero, Builder.newValue,
      Builder.modifyState, Builder.modifyBlock, recording.balanced] }

def inherit (recording : Recording) (label : Label) (var : Variable) (value : Value) :
    Recording :=
  { recording with
    builder := recording.builder.withKnown label var value
    incoming := recording.received label var value
    balanced := by simp [Builder.withKnown, recording.balanced] }

def join (recording : Recording) (label : Label) (var : Variable) (type : MachineType) :
    Recording :=
  let value := recording.builder.nextValue
  { recording with
    builder := (recording.builder.withParameter label type).withKnown label var value
    joined := Function.update recording.joined label (recording.joined label ++ [(var, value)])
    incoming := recording.received label var value
    balanced := by simp [Builder.withKnown, Builder.withParameter, Builder.newValue,
      Builder.modifyState, Builder.modifyBlock, recording.balanced] }

def pass (recording : Recording) (edge : Edge) (value : Value) : Recording :=
  { recording with
    builder := recording.builder.withArgument edge value
    appended := Function.update recording.appended edge (recording.appended edge ++ [value])
    balanced := by simp [Builder.withArgument, Builder.modifyBlock, recording.balanced] }

/-! ### Changes by the caller -/

def create (recording : Recording) : Recording :=
  { recording with
    builder := recording.builder.withBlock
    balanced := by simp [Builder.withBlock, recording.balanced] }

def switch (recording : Recording) (label : Label) : Recording :=
  { recording with
    builder := recording.builder.withCurrent label
    balanced := by
      simp only [Builder.withCurrent]
      split <;> simp [Builder.modifyState, recording.balanced] }

def parameter (recording : Recording) (label : Label) (type : MachineType) : Recording :=
  { recording with
    builder := recording.builder.withParameter label type
    explicit := Function.update recording.explicit label
      (recording.explicit label ++ [recording.builder.nextValue])
    balanced := by simp [Builder.withParameter, Builder.newValue, Builder.modifyBlock,
      recording.balanced] }

def declare (recording : Recording) (var : Variable) (type : MachineType) : Recording :=
  { recording with
    builder := { recording.builder with
      declared := recording.builder.declared ++ [(var, type)] } }

def define (recording : Recording) (label : Label) (var : Variable) (value : Value) :
    Recording :=
  { recording with
    builder := recording.builder.withKnown label var value
    script := recording.noted label (.define var value)
    balanced := by simp [Builder.withKnown, recording.balanced] }

def use (recording : Recording) (label : Label) (var : Variable) (value : Value) : Recording :=
  { recording with script := recording.noted label (.use var value) }

def close (recording : Recording) (label : Label) : Recording :=
  { recording with
    builder := recording.builder.withSeal label
    balanced := by simp [Builder.withSeal, recording.balanced] }

def emit (recording : Recording) (label : Label) (operation : Operation)
    (types : List MachineType) : Recording :=
  { recording with
    builder := recording.builder.withInstruction label operation types
    script := recording.noted label
      (.instruction { results := recording.builder.nextValues types.length, operation })
    balanced := by
      have size : ∀ (builder : Builder) (side : Nat) (destinations : List Destination),
          (builder.withEdges label side destinations).states.size = builder.states.size := by
        intro builder side destinations
        induction destinations generalizing builder side with
        | nil => rfl
        | cons destination rest induction => simp [Builder.withEdges, induction]
      simp [Builder.withInstruction, size, Builder.withValues, Builder.modifyBlock,
        recording.balanced] }

def refer (recording : Recording) (external : External) : Recording :=
  { recording with
    builder := { recording.builder with
      function := { recording.builder.function with
        references := recording.builder.function.references.push external }
      imports := (external.id, ⟨recording.builder.function.references.size⟩) ::
        recording.builder.imports } }

def reserve (recording : Recording) (size : UInt32) : Recording :=
  { recording with
    builder := { recording.builder with
      function := { recording.builder.function with
        slots := recording.builder.function.slots.push size } } }

end Recording

/-! ## Moves -/

inductive Resolve : Recording → Recording → Prop
  | pend {recording : Recording} (label : Label) (var : Variable) (type : MachineType)
      (inside : recording.builder.hasBlock label = true)
      (unsealed : (recording.builder.state label).isSealed = false)
      (unknown : recording.builder.known label var = none)
      (fresh : recording.incoming label var = none)
      (declared : recording.builder.declared.lookup var = some type) :
      Resolve recording (recording.pend label var type)
  | zero {recording : Recording} (label : Label) (var : Variable) (type : MachineType)
      (inside : recording.builder.hasBlock label = true)
      (closed : (recording.builder.state label).isSealed = true)
      (alone : (recording.builder.state label).predecessors = [])
      (unknown : recording.builder.known label var = none)
      (fresh : recording.incoming label var = none)
      (declared : recording.builder.declared.lookup var = some type) :
      Resolve recording (recording.zero label var type)
  | inherit {recording : Recording} (label : Label) (var : Variable) (edge : Edge)
      (value : Value)
      (inside : recording.builder.hasBlock label = true)
      (closed : (recording.builder.state label).isSealed = true)
      (only : (recording.builder.state label).predecessors = [edge])
      (source : recording.builder.known edge.source var = some value)
      (fresh : (recording.builder.known label var = none ∧ recording.incoming label var = none) ∨
        (recording.builder.known label var = some value ∧
          recording.incoming label var = some value)) :
      Resolve recording (recording.inherit label var value)
  | join {recording : Recording} (label : Label) (var : Variable) (type : MachineType)
      (inside : recording.builder.hasBlock label = true)
      (closed : (recording.builder.state label).isSealed = true)
      (several : 2 ≤ (recording.builder.state label).predecessors.length)
      (unknown : recording.builder.known label var = none)
      (fresh : recording.incoming label var = none)
      (declared : recording.builder.declared.lookup var = some type) :
      Resolve recording (recording.join label var type)
  | pass {recording : Recording} (label : Label) (edge : Edge) (var : Variable)
      (param value : Value)
      (member : edge ∈ (recording.builder.state label).predecessors)
      (next : (recording.joined label)[(recording.appended edge).length]? = some (var, param))
      (source : recording.builder.known edge.source var = some value) :
      Resolve recording (recording.pass edge value)

/-- What building can do in one go. If `entry` is given, the caller keeps to the rules under
which variables can be relied on: explicit parameters of blocks other than the entry are
appended before the first branch to them, and variables are given values and read only in
blocks that are not terminated. -/
inductive Move (entry : Option Label) : Recording → Recording → Prop
  | resolve {recording later : Recording} (step : Resolve recording later) :
      Move entry recording later
  | create {recording : Recording} : Move entry recording recording.create
  | switch {recording : Recording} (label : Label)
      (inside : recording.builder.hasBlock label = true)
      (left : ∀ old, recording.builder.current = some old →
        (recording.builder.function.block old).instructions = [] ∨
          (recording.builder.function.block old).isTerminated = true) :
      Move entry recording (recording.switch label)
  | parameter {recording : Recording} (label : Label) (type : MachineType)
      (inside : recording.builder.hasBlock label = true)
      (ready : (recording.builder.state label).pending = [])
      (early : ∀ first, entry = some first → label ≠ first →
        (recording.builder.state label).predecessors = []) :
      Move entry recording (recording.parameter label type)
  | declare {recording : Recording} (var : Variable) (type : MachineType)
      (unknown : recording.builder.declared.lookup var = none) :
      Move entry recording (recording.declare var type)
  | define {recording : Recording} (label : Label) (var : Variable) (type : MachineType)
      (value : Value)
      (current : recording.builder.current = some label)
      (declared : recording.builder.declared.lookup var = some type)
      (typed : recording.builder.function.type? value = some type)
      (early : entry.isSome → (recording.builder.function.block label).isTerminated = false) :
      Move entry recording (recording.define label var value)
  | use {recording : Recording} (label : Label) (var : Variable) (value : Value)
      (current : recording.builder.current = some label)
      (holds : recording.builder.known label var = some value)
      (early : entry.isSome → (recording.builder.function.block label).isTerminated = false) :
      Move entry recording (recording.use label var value)
  | close {recording : Recording} (label : Label)
      (inside : recording.builder.hasBlock label = true)
      (unsealed : (recording.builder.state label).isSealed = false)
      (complete : ∀ edge ∈ (recording.builder.state label).predecessors,
        (recording.appended edge).length = (recording.joined label).length) :
      Move entry recording (recording.close label)
  | emit {recording : Recording} (label : Label) (operation : Operation)
      (types : List MachineType)
      (current : recording.builder.current = some label)
      (unfinished : (recording.builder.function.block label).isTerminated = false)
      (operands : ∀ value ∈ operation.operands,
        (recording.builder.function.value? value).isSome = true)
      (fits : operation.Fits recording.builder types) :
      Move entry recording (recording.emit label operation types)
  | refer {recording : Recording} (external : External)
      (unknown : recording.builder.imports.lookup external.id = none) :
      Move entry recording (recording.refer external)
  | reserve {recording : Recording} (size : UInt32) :
      Move entry recording (recording.reserve size)

abbrev Resolves : Recording → Recording → Prop :=
  Relation.ReflTransGen Resolve

abbrev Moves (entry : Option Label) : Recording → Recording → Prop :=
  Relation.ReflTransGen (Move entry)

theorem Resolves.moves {entry : Option Label} {recording later : Recording}
    (resolves : Resolves recording later) : Moves entry recording later :=
  Relation.ReflTransGen.mono (fun _ _ step => Move.resolve step) _ _ resolves

end ExprLang.Ssa
