import ExprLang.Ssa.Module
import ExprLang.Ssa.Verifier

/-!
# Building functions

A builder fills the blocks of one function. Its caller may use mutable variables; reading one
finds the value that reaches the end of the current block by looking through the
predecessors. A block is *sealed* once all branches to it are known. In a block that is not
sealed a new parameter stands for the value of a var, and when the block is sealed every
branch to it gets one more argument for that parameter.

Wrong use is not refused but noted: the first misuse is kept, and no function with one is
ever accepted.
-/

namespace ExprLang.Ssa

/-! ## Misuse -/

inductive Misuse where
  | switchToUnknown (label : Label)
  | leftUnterminated (left entered : Label)
  | sealUnknown (label : Label)
  | sealedTwice (label : Label)
  | parameterOfUnknown (label : Label)
  | parameterAfterVariables (label : Label)
  | parametersOfUnknown (label : Label)
  | declaredTwice (var : Variable)
  | definedUndeclared (var : Variable)
  | definedOutside (var : Variable)
  | definedWrongType (var : Variable)
  | usedUndeclared (var : Variable)
  | usedOutside (var : Variable)
  | endlessLookup (var : Variable)
  | importUnknown (id : FunctionId)
  | outsideBlock (opcode : Opcode)
  | afterTerminator (opcode : Opcode) (label : Label)
  | unknownOperand (opcode : Opcode) (value : Value)
  | operandTypes (opcode : Opcode) (left right : Value)
  | unknownSlot (slot : Slot)
  | slotOverflow (slot : Slot) (offset : Int64)
  | unknownReference (reference : Reference)
  | callArguments (name : String) (found wanted : Nat)
  | branchToUnknown (label : Label)
  | branchToSealed (label : Label)
  | notSealed (label : Label)
  | neverFilled (label : Label)
deriving DecidableEq, Repr

def Misuse.message : Misuse → String
  | switchToUnknown label => "switch to unknown " ++ label.render
  | leftUnterminated left entered =>
    left.render ++ " is not terminated before switching to " ++ entered.render
  | sealUnknown label => "seal unknown " ++ label.render
  | sealedTwice label => label.render ++ " sealed twice"
  | parameterOfUnknown label => "append parameter to unknown " ++ label.render
  | parameterAfterVariables label =>
    "explicit parameter appended to " ++ label.render ++ " after variable parameters"
  | parametersOfUnknown label => "parameters of unknown " ++ label.render
  | declaredTwice var =>
    "variable " ++ Text.decimal var.index ++ " declared twice"
  | definedUndeclared var =>
    "definition of undeclared variable " ++ Text.decimal var.index
  | definedOutside var =>
    "definition of variable " ++ Text.decimal var.index ++ " outside a block"
  | definedWrongType var =>
    "variable " ++ Text.decimal var.index ++ " defined with a value of the wrong type"
  | usedUndeclared var => "use of undeclared variable " ++ Text.decimal var.index
  | usedOutside var =>
    "use of variable " ++ Text.decimal var.index ++ " outside a block"
  | endlessLookup var =>
    "use of variable " ++ Text.decimal var.index ++ " in a cycle without entry"
  | importUnknown id => "import of unknown function " ++ Text.decimal id.index
  | outsideBlock opcode => opcode.render ++ " outside a block"
  | afterTerminator opcode label =>
    opcode.render ++ " after the terminator of " ++ label.render
  | unknownOperand opcode value => opcode.render ++ " uses unknown value " ++ value.render
  | operandTypes opcode left right =>
    opcode.render ++ " operands " ++ left.render ++ " and " ++ right.render ++ " differ in type"
  | unknownSlot slot => "unknown stack slot " ++ slot.render
  | slotOverflow slot offset =>
    "stack_store at " ++ slot.render ++ "+" ++ Text.word offset ++ " overflows the slot"
  | unknownReference reference => "call through unknown " ++ reference.render
  | callArguments name found wanted =>
    "call to " ++ name ++ " with " ++ Text.decimal found ++ " arguments, want " ++
      Text.decimal wanted
  | branchToUnknown label => "branch to unknown " ++ label.render
  | branchToSealed label => "branch to sealed " ++ label.render
  | notSealed label => label.render ++ " is not sealed"
  | neverFilled label => label.render ++ " is a branch target but was never filled"

structure BuildError where
  function : String
  misuse : Misuse
deriving DecidableEq, Repr

def BuildError.message (error : BuildError) : String :=
  "ssa: building " ++ error.function ++ ": " ++ error.misuse.message

inductive FinalizeError where
  | build (error : BuildError)
  | verify (error : VerifyError)
deriving DecidableEq, Repr

def FinalizeError.message : FinalizeError → String
  | build error => error.message
  | verify error => error.message

/-! ## The state of a builder -/

/-- A branch to a block: the block that it leaves and which of its destinations it is. -/
structure Edge where
  source : Label
  side : Nat
deriving DecidableEq, Repr

structure BlockState where
  isSealed : Bool
  isPlaced : Bool
  predecessors : List Edge
  pending : List (Variable × Value)
  known : List (Variable × Value)
deriving DecidableEq, Repr

def BlockState.fresh : BlockState := ⟨false, false, [], [], []⟩

structure Builder where
  id : FunctionId
  function : Function
  current : Option Label
  states : Array BlockState
  declared : List (Variable × MachineType)
  imports : List (FunctionId × Reference)
  misuse : Option Misuse
deriving DecidableEq, Repr

abbrev Build := StateM Builder

namespace Builder

def start (id : FunctionId) (declaration : Declaration) : Builder :=
  ⟨id, .start declaration.name declaration.prototype, none, #[], [], [], none⟩

def hasBlock (builder : Builder) (label : Label) : Bool :=
  label.index < builder.function.blocks.size

def state (builder : Builder) (label : Label) : BlockState :=
  builder.states.getD label.index .fresh

def isSealed (builder : Builder) (label : Label) : Bool :=
  builder.hasBlock label && (builder.state label).isSealed

def predecessors (builder : Builder) (label : Label) : List Label :=
  (builder.state label).predecessors.map Edge.source

def error? (builder : Builder) : Option BuildError :=
  builder.misuse.map fun misuse => ⟨builder.function.name, misuse⟩

/-- Notes a misuse, unless there was one before. -/
def blame (builder : Builder) (misuse : Misuse) : Builder :=
  { builder with misuse := builder.misuse.or (some misuse) }

def modifyState (builder : Builder) (label : Label) (change : BlockState → BlockState) :
    Builder :=
  { builder with states := builder.states.modify label.index change }

def modifyBlock (builder : Builder) (label : Label) (change : Block → Block) : Builder :=
  { builder with
    function := { builder.function with
      blocks := builder.function.blocks.modify label.index change } }

def newValue (builder : Builder) (info : ValueInfo) : Value × Builder :=
  (⟨builder.function.values.size⟩,
    { builder with
      function := { builder.function with values := builder.function.values.push info } })

end Builder

namespace Build

def blame (misuse : Misuse) : Build Unit :=
  modify fun builder => builder.blame misuse

def function : Build Function := do
  return (← get).function

/-! ## Blocks -/

def createBlock : Build Label := do
  let builder ← get
  set { builder with
    function := { builder.function with blocks := builder.function.blocks.push .empty }
    states := builder.states.push .fresh }
  return ⟨builder.function.blocks.size⟩

/-- Puts a block into the layout, unless it is there. -/
def place (label : Label) : Build Unit :=
  modify fun builder =>
    if (builder.state label).isPlaced then builder
    else
      { builder.modifyState label fun state => { state with isPlaced := true } with
        function := { builder.function with layout := builder.function.layout ++ [label] } }

def switchTo (label : Label) : Build Unit := do
  let builder ← get
  if builder.hasBlock label then
    if let some left := builder.current then
      let block := builder.function.block left
      if !block.instructions.isEmpty && !block.isTerminated then
        blame (.leftUnterminated left label)
    place label
    modify fun builder => { builder with current := some label }
  else blame (.switchToUnknown label)

def addParameter (label : Label) (type : MachineType) : Build Value := do
  let (value, builder) := (← get).newValue ⟨type, true, label⟩
  set (builder.modifyBlock label fun block =>
    { block with parameters := block.parameters ++ [value] })
  return value

def appendParameter (label : Label) (type : MachineType) : Build Value := do
  let builder ← get
  if builder.hasBlock label then
    if !(builder.state label).pending.isEmpty then blame (.parameterAfterVariables label)
    addParameter label type
  else
    blame (.parameterOfUnknown label)
    return ⟨0⟩

def appendFunctionParameters (label : Label) : Build Unit := do
  (← function).prototype.parameters.forM fun type => discard (appendParameter label type)

def parameters (label : Label) : Build (List Value) := do
  let builder ← get
  if builder.hasBlock label then return (builder.function.block label).parameters
  else
    blame (.parametersOfUnknown label)
    return []

/-! ## Variables -/

def define (label : Label) (var : Variable) (value : Value) : Build Unit :=
  modify fun builder => builder.modifyState label fun state =>
    { state with known := (var, value) :: state.known }

def zeroAtTop (label : Label) (type : MachineType) : Build Value := do
  let (value, builder) := (← get).newValue ⟨type, false, label⟩
  let zero : Instruction := { results := [value], operation := .constant type 0 }
  set (builder.modifyBlock label fun block =>
    { block with instructions := zero :: block.instructions })
  return value

def passArgument (edge : Edge) (value : Value) : Build Unit :=
  modify fun builder => builder.modifyBlock edge.source fun block =>
    { block with
      instructions := block.instructions.dropLast ++
        block.instructions.getLast?.toList.map fun last =>
          { last with
            operation := last.operation.changeDestination
              (fun destination =>
                { destination with arguments := destination.arguments ++ [value] })
              edge.side } }

/-- The most blocks that a lookup can look through one behind the other. Between two blocks
with several predecessors, each of which is passed once, there is at most one chain of blocks
with a single predecessor. -/
def lookupFuel : Build Nat := do
  let count := (← function).blocks.size + 1
  return count * count + 1

/-- Finds the value of a variable at the end of a block. The fuel bounds how many blocks are
looked through one behind the other. -/
def lookup (var : Variable) (type : MachineType) : (fuel : Nat) → Label → Build Value
  | 0, _ => do
    blame (.endlessLookup var)
    return ⟨0⟩
  | fuel + 1, label => do
    let state := (← get).state label
    match state.known.lookup var with
    | some value => return value
    | none =>
      if !state.isSealed then
        let value ← addParameter label type
        modify fun builder => builder.modifyState label fun state =>
          { state with pending := state.pending ++ [(var, value)] }
        define label var value
        return value
      else
        match state.predecessors with
        | [] =>
          let value ← zeroAtTop label type
          define label var value
          return value
        | [edge] =>
          let value ← lookup var type fuel edge.source
          define label var value
          return value
        | edges =>
          let value ← addParameter label type
          define label var value
          edges.forM fun edge => do
            let argument ← lookup var type fuel edge.source
            passArgument edge argument
          return value

def passAlong (label : Label) (var : Variable) (param : Value) : Build Unit := do
  let builder ← get
  let type := builder.function.type param
  let fuel ← lookupFuel
  (builder.state label).predecessors.forM fun edge => do
    let argument ← lookup var type fuel edge.source
    passArgument edge argument

/-- Passes arguments for the pending parameters of a block, starting with the one at `index`.
Doing so may make further parameters pending, at most one for each variable. -/
def passPending (label : Label) : (count : Nat) → (index : Nat) → Build Unit
  | 0, _ => return
  | count + 1, index => do
    match ((← get).state label).pending[index]? with
    | none => return
    | some (var, param) =>
      passAlong label var param
      passPending label count (index + 1)

def sealBlock (label : Label) : Build Unit := do
  let builder ← get
  if !builder.hasBlock label then blame (.sealUnknown label)
  else if (builder.state label).isSealed then blame (.sealedTwice label)
  else
    passPending label builder.declared.length 0
    modify fun builder => builder.modifyState label fun state =>
      { state with pending := [], isSealed := true }

def sealAll : Build Unit := do
  (List.range (← get).states.size).forM fun index => do
    if !((← get).state ⟨index⟩).isSealed then sealBlock ⟨index⟩

def declareVariable (var : Variable) (type : MachineType) : Build Unit := do
  let builder ← get
  if (builder.declared.lookup var).isSome then blame (.declaredTwice var)
  else set { builder with declared := builder.declared ++ [(var, type)] }

def defineVariable (var : Variable) (value : Value) : Build Unit := do
  let builder ← get
  match builder.declared.lookup var, builder.current with
  | none, _ => blame (.definedUndeclared var)
  | some _, none => blame (.definedOutside var)
  | some type, some label =>
    if builder.function.type? value = some type then define label var value
    else blame (.definedWrongType var)

def useVariable (var : Variable) : Build Value := do
  let builder ← get
  match builder.declared.lookup var, builder.current with
  | none, _ =>
    blame (.usedUndeclared var)
    return ⟨0⟩
  | some _, none =>
    blame (.usedOutside var)
    return ⟨0⟩
  | some type, some label => lookup var type (← lookupFuel) label

/-! ## Slots and references -/

def importFunction (module : Module) (id : FunctionId) : Build Reference := do
  let builder ← get
  match builder.imports.lookup id, module.declaration? id with
  | some reference, _ => return reference
  | none, none =>
    blame (.importUnknown id)
    return ⟨0⟩
  | none, some declaration =>
    let reference : Reference := ⟨builder.function.references.size⟩
    let external : External := ⟨id, declaration.name, declaration.prototype⟩
    set { builder with
      function := { builder.function with
        references := builder.function.references.push external }
      imports := (id, reference) :: builder.imports }
    return reference

def createSlot (size : UInt32) : Build Slot := do
  let builder ← get
  set { builder with
    function := { builder.function with slots := builder.function.slots.push size } }
  return ⟨builder.function.slots.size⟩

/-! ## Instructions -/

def createResults (label : Label) : List MachineType → Build (List Value)
  | [] => return []
  | type :: types => do
    let (value, builder) := (← get).newValue ⟨type, false, label⟩
    set builder
    return value :: (← createResults label types)

/-- Adds an instruction to the current block and creates its results. If that is not possible
the results are numbered zero. -/
def emit (operation : Operation) (types : List MachineType) : Build (List Value) := do
  let builder ← get
  match builder.current with
  | none =>
    blame (.outsideBlock operation.opcode)
    return types.map fun _ => ⟨0⟩
  | some label =>
    if (builder.function.block label).isTerminated then
      blame (.afterTerminator operation.opcode label)
      return types.map fun _ => ⟨0⟩
    else
      operation.operands.forM fun value =>
        if (builder.function.value? value).isNone then
          blame (.unknownOperand operation.opcode value)
        else return
      let results ← createResults label types
      modify fun builder => builder.modifyBlock label fun block =>
        { block with instructions := block.instructions ++ [{ results, operation }] }
      return results

def emitOne (operation : Operation) (type : MachineType) : Build Value := do
  return (← emit operation [type]).headD ⟨0⟩

def constant (type : MachineType) (value : Int64) : Build Value :=
  emitOne (.constant type value) type

def compareTypes (opcode : Opcode) (left right : Value) : Build Unit := do
  let body ← function
  if body.type left ≠ body.type right then blame (.operandTypes opcode left right)

def arithmetic (operation : Arithmetic) (left right : Value) : Build Value := do
  compareTypes (.arithmetic operation) left right
  emitOne (.arithmetic operation left right) ((← function).type left)

def compare (condition : Condition) (left right : Value) : Build Value := do
  compareTypes .compare left right
  emitOne (.compare condition left right) .i1

def signExtend (type : MachineType) (operand : Value) : Build Value :=
  emitOne (.signExtend type operand) type

def load (type : MachineType) (address : Value) (offset : Int32) : Build Value :=
  emitOne (.load type address offset.toInt64) type

def store (value address : Value) (offset : Int32) : Build Unit :=
  discard (emit (.store value address offset.toInt64) [])

def slotAddress (slot : Slot) (offset : Int32) : Build Value := do
  if (← function).slots[slot.index]?.isNone then blame (.unknownSlot slot)
  emitOne (.slotAddress .i64 slot offset.toInt64) .i64

/-- Writes a value to a slot. A write that ends behind the end of the slot is noted. -/
def slotStore (value : Value) (slot : Slot) (offset : Int32) : Build Unit := do
  let body ← function
  match body.slots[slot.index]? with
  | none => blame (.unknownSlot slot)
  | some size =>
    if offset.toInt + (body.type value).size > size.toNat then
      blame (.slotOverflow slot offset.toInt64)
  discard (emit (.slotStore value slot offset.toInt64) [])

def call (reference : Reference) (arguments : List Value) : Build (List Value) := do
  match (← function).references[reference.index]? with
  | none =>
    blame (.unknownReference reference)
    return []
  | some external =>
    let wanted := external.prototype.parameters.length
    if arguments.length ≠ wanted then
      blame (.callArguments external.name arguments.length wanted)
    emit (.call reference arguments) external.prototype.results

def destinationMisuse? (builder : Builder) : List Destination → Option Misuse
  | [] => none
  | destination :: rest =>
    if !builder.hasBlock destination.block then some (.branchToUnknown destination.block)
    else if (builder.state destination.block).isSealed then
      some (.branchToSealed destination.block)
    else destinationMisuse? builder rest

def addEdges (source : Label) : (side : Nat) → List Destination → Build Unit
  | _, [] => return
  | side, destination :: rest => do
    modify fun builder => builder.modifyState destination.block fun state =>
      { state with predecessors := state.predecessors ++ [⟨source, side⟩] }
    addEdges source (side + 1) rest

def branchWith (operation : Operation) : Build Unit := do
  let builder ← get
  match builder.current, destinationMisuse? builder operation.destinations with
  | none, _ => blame (.outsideBlock operation.opcode)
  | some _, some misuse => blame misuse
  | some label, none =>
    discard (emit operation [])
    if !(builder.function.block label).isTerminated then
      addEdges label 0 operation.destinations

/-- Branches on a value: to the first block unless it is zero. -/
def branch (condition : Value) (onTrue onFalse : Destination) : Build Unit :=
  branchWith (.branch condition onTrue onFalse)

def jump (target : Destination) : Build Unit :=
  branchWith (.jump target)

def ret (values : List Value) : Build Unit :=
  discard (emit (.ret values) [])

end Build

namespace Builder

def unfinished? (builder : Builder) (label : Label) : Option Misuse :=
  let state := builder.state label
  if state.isPlaced && !state.isSealed then some (.notSealed label)
  else if !state.isPlaced && !state.predecessors.isEmpty then some (.neverFilled label)
  else none

/-- Accepts or refuses the function: nothing was done wrong, every block in use is placed and
sealed, and the function verifies. -/
def finalize (builder : Builder) : Except FinalizeError Unit :=
  match builder.error? with
  | some error => .error (.build error)
  | none =>
    match (List.range builder.states.size).findSome? fun index => builder.unfinished? ⟨index⟩ with
    | some misuse => .error (.build ⟨builder.function.name, misuse⟩)
    | none => builder.function.verify.mapError .verify

end Builder

/-! ## Bodies for a module -/

inductive DefineError where
  | noBuilder
  | notOwned (name : String) (id : FunctionId)
  | alreadyDefined (name : String)
  | rejected (error : FinalizeError)
deriving DecidableEq, Repr

def DefineError.message : DefineError → String
  | noBuilder => "ssa: foreign function builder <nil>"
  | notOwned name id =>
    "ssa: builder for " ++ name ++ " does not belong to function id " ++ Text.decimal id.index
  | alreadyDefined name => "ssa: function " ++ name ++ " is already defined"
  | rejected error => error.message

namespace Module

def build (module : Module) (id : FunctionId) : Except StartError Builder :=
  (module.startable id).map (Builder.start id)

def define (module : Module) (id : FunctionId) (builder : Option Builder) :
    Except DefineError Module :=
  match builder with
  | none => .error .noBuilder
  | some builder =>
    if builder.id ≠ id then .error (.notOwned builder.function.name id)
    else if (module.body? id).isSome then .error (.alreadyDefined builder.function.name)
    else
      match builder.finalize with
      | .error error => .error (.rejected error)
      | .ok () => .ok (module.attach id builder.function)

end Module

end ExprLang.Ssa
