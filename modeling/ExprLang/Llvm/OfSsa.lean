import ExprLang.Llvm.Basic
import ExprLang.Ssa.Module
import ExprLang.Ssa.Order

/-!
# From static single assignment form to the LLVM language

Every block becomes a block and every parameter of a block but the entry a phi. Blocks are
treated in an order in which definitions come before uses; the phis are filled last, when the
operands for all arguments are known. Constants are written where they are used, and
addresses, which are words, become pointers just before memory is accessed.
-/

namespace ExprLang.Llvm

/-! ## Failures -/

inductive Obstacle where
  | undefinedValue (value : Ssa.Value)
  | unknownSlot (slot : Ssa.Slot)
  | unknownReference (reference : Ssa.Reference)
  | doubleBranch (source target : Ssa.Label)
  | returnCount (found : Nat)
  | argumentCount (source : Ssa.Label) (found : Nat) (target : Ssa.Label) (wanted : Nat)
  | unsupported (opcode : Ssa.Opcode)
deriving DecidableEq, Repr

def Obstacle.message : Obstacle → String
  | undefinedValue value => "use of " ++ value.render ++ " before its definition"
  | unknownSlot slot => "unknown stack slot " ++ slot.render
  | unknownReference reference => "unknown function reference " ++ reference.render
  | doubleBranch source target =>
    source.render ++ " branches twice to " ++ target.render ++ " with arguments"
  | returnCount found => "return of " ++ Text.decimal found ++ " values"
  | argumentCount source found target wanted =>
    source.render ++ " passes " ++ Text.decimal found ++ " arguments to " ++ target.render ++
      ", want " ++ Text.decimal wanted
  | unsupported opcode => "unsupported instruction " ++ opcode.render

inductive ModuleObstacle where
  | resultCount (function : String) (found : Nat)
  | undefined (function : String)
  | body (function : String) (obstacle : Obstacle)
deriving DecidableEq, Repr

def ModuleObstacle.message : ModuleObstacle → String
  | resultCount function found =>
    "llvmobj: " ++ function ++ ": expected one result, got " ++ Text.decimal found
  | undefined function => "llvmobj: " ++ function ++ " declared but not defined"
  | body function obstacle => "llvmobj: " ++ function ++ ": " ++ obstacle.message

/-! ## Blocks -/

abbrev Operands := List (Ssa.Value × Operand)

def Operands.find (operands : Operands) (value : Ssa.Value) : Except Obstacle Operand :=
  match operands.lookup value with
  | some operand => .ok operand
  | none => .error (.undefinedValue value)

structure Passage where
  source : Ssa.Label
  destination : Ssa.Destination

structure Draft where
  label : Ssa.Label
  operands : Operands
  assignments : Array Assignment
  terminator : Option Terminator

abbrev Drafting := StateT Draft (Except Obstacle)

namespace Drafting

def operand (value : Ssa.Value) : Drafting Operand := do
  (← get).operands.find value

def define (value : Ssa.Value) (operand : Operand) : Drafting Unit :=
  modify fun draft => { draft with operands := (value, operand) :: draft.operands }

def assign (name : Option Name) (instruction : Instruction) : Drafting Unit :=
  modify fun draft =>
    { draft with assignments := draft.assignments.push ⟨name, instruction⟩ }

def temporary (instruction : Instruction) : Drafting Name := do
  let draft ← get
  let name := Name.temporary draft.label draft.assignments.size
  assign (some name) instruction
  return name

def named (results : List Ssa.Value) (width : Width) (instruction : Instruction) :
    Drafting Unit :=
  match results with
  | [] => discard (temporary instruction)
  | value :: _ => do
    assign (some (.value value)) instruction
    define value (.result (.value value) width)

def terminate (terminator : Terminator) : Drafting Unit :=
  modify fun draft => { draft with terminator := some terminator }

/-- An address with an offset, which is left out if it is zero. -/
def displaced (address : Operand) (offset : Int64) : Drafting Operand := do
  if offset = 0 then return address
  else
    let name ← temporary (.arithmetic .add address (.constant .word offset))
    return .result name address.width

def pointer (address : Operand) : Drafting Name :=
  temporary (.pointer address)

def slotWords (size : UInt32) : Nat :=
  (size.toNat + 7) / 8

def slotPlace (function : Ssa.Function) (slot : Ssa.Slot) (offset : Int64) :
    Drafting Operand := do
  match function.slots[slot.index]? with
  | none => throw (.unknownSlot slot)
  | some size =>
    let name ← temporary (.slotAddress slot (slotWords size))
    displaced (.result name .word) offset

def condition (operand : Operand) : Drafting Operand := do
  if operand.width = .bit then return operand
  else
    return .result (← temporary (.compare .notEqual operand (.constant .word 0))) .bit

def resultWidth (prototype : Ssa.Prototype) : Width :=
  .ofMachineType (prototype.results.headD .i64)

/-- Adds what an instruction does. All operands are looked up first. -/
def instruction (function : Ssa.Function) (source : Ssa.Instruction) : Drafting Unit := do
  let results := source.results
  match source.operation with
  | .constant type value =>
    results.head?.forM fun result =>
      define result (.constant (.ofMachineType type) value)
  | .arithmetic operation left right =>
    let left ← operand left
    let right ← operand right
    named results left.width (.arithmetic operation left right)
  | .compare condition left right =>
    let left ← operand left
    let right ← operand right
    named results .bit (.compare condition left right)
  | .signExtend type argument =>
    let argument ← operand argument
    let width := Width.ofMachineType type
    named results width (.signExtend argument width)
  | .load type address offset =>
    let address ← operand address
    let place ← pointer (← displaced address offset)
    let width := Width.ofMachineType type
    named results width (.load width place)
  | .store value address offset =>
    let value ← operand value
    let address ← operand address
    let place ← pointer (← displaced address offset)
    assign none (.store value place)
  | .slotAddress _ slot offset =>
    let place ← slotPlace function slot offset
    results.head?.forM fun result => define result place
  | .slotStore value slot offset =>
    let value ← operand value
    let place ← pointer (← slotPlace function slot offset)
    assign none (.store value place)
  | .call reference arguments =>
    let arguments ← arguments.mapM operand
    match function.references[reference.index]? with
    | none => throw (.unknownReference reference)
    | some external =>
      let width := resultWidth external.prototype
      named results width (.call width external.name arguments)
  | .branch value onTrue onFalse =>
    let value ← operand value
    let label := (← get).label
    if onTrue.block = onFalse.block ∧ ¬ onTrue.arguments.isEmpty then
      throw (.doubleBranch label onTrue.block)
    else terminate (.branch (← condition value) onTrue.block onFalse.block)
  | .jump target => terminate (.jump target.block)
  | .ret values =>
    match ← values.mapM operand with
    | [value] => terminate (.ret value)
    | values => throw (.returnCount values.length)
  | .malformed kind _ _ => throw (.unsupported kind)
  | .unknown code => throw (.unsupported (.unknown code))

end Drafting

def reservations (function : Ssa.Function) : List Assignment :=
  function.slots.toList.zipIdx.map fun (size, index) =>
    ⟨some (.slot ⟨index⟩), .allocate (Drafting.slotWords size)⟩

/-- What is known about a function while its blocks are treated: the operands, and the
contents of the blocks that are done. -/
structure Progress where
  operands : Operands
  contents : List (Ssa.Label × List Assignment × Option Terminator)

/-- Treats a block. Slots are reserved at the start of the entry. -/
def addBlock (function : Ssa.Function) (progress : Progress) (label : Ssa.Label) :
    Except Obstacle Progress := do
  let reserved := if function.entry? = some label then reservations function else []
  let block := function.block label
  let ((), draft) ← (block.instructions.forM (Drafting.instruction function)).run
    ⟨label, progress.operands, reserved.toArray, none⟩
  return ⟨draft.operands,
    (label, draft.assignments.toList, draft.terminator) :: progress.contents⟩

/-! ## Functions -/

def parameterOperands (function : Ssa.Function) : Operands :=
  function.layout.flatMap fun label =>
    (function.block label).parameters.map fun value =>
      (value, .result (.value value) (.ofMachineType (function.type value)))

def passages (function : Ssa.Function) (label : Ssa.Label) : List Passage :=
  (function.block label).instructions.flatMap fun instruction =>
    instruction.operation.destinations.map fun destination => ⟨label, destination⟩

def incoming (function : Ssa.Function) (operands : Operands) (passage : Passage) :
    Except Obstacle (List (Ssa.Value × Operand × Ssa.Label)) := do
  let target := passage.destination.block
  let parameters := (function.block target).parameters
  let arguments := passage.destination.arguments
  if arguments.length ≠ parameters.length then
    throw (.argumentCount passage.source arguments.length target parameters.length)
  else
    let arguments ← arguments.mapM operands.find
    return (parameters.zip arguments).map fun (parameter, argument) =>
      (parameter, argument, passage.source)

def phis (function : Ssa.Function) (brought : List (Ssa.Value × Operand × Ssa.Label))
    (label : Ssa.Label) : List Phi :=
  if function.entry? = some label then []
  else
    (function.block label).parameters.map fun parameter =>
      ⟨parameter, .ofMachineType (function.type parameter),
        brought.filterMap fun (value, operand, source) =>
          if value = parameter then some (operand, source) else none⟩

def blocksOfSsa (function : Ssa.Function) : Except Obstacle (List Block) := do
  let order := function.reversePostorder
  let progress ← order.foldlM (addBlock function) ⟨parameterOperands function, []⟩
  let brought ← (order.flatMap (passages function)).mapM (incoming function progress.operands)
  return function.layout.map fun label =>
    let (assignments, terminator) := (progress.contents.lookup label).getD ([], none)
    ⟨label, phis function brought.flatten label, assignments, terminator⟩

def declarationOfSsa (declaration : Ssa.Declaration) : Function :=
  { name := declaration.name
    isInternal := declaration.linkage = .internal
    width := Drafting.resultWidth declaration.prototype
    parameters := declaration.prototype.parameters.map fun type =>
      ⟨.ofMachineType type, none⟩
    blocks := [] }

/-- A function with its body. Its parameters are those of the entry. -/
def functionOfSsa (declaration : Ssa.Declaration) (body : Ssa.Function) :
    Except Obstacle Function := do
  let blocks ← blocksOfSsa body
  let values := (body.entry?.map fun entry => (body.block entry).parameters).getD []
  let declared := declarationOfSsa declaration
  return { declared with
    parameters := declared.parameters.zipIdx.map fun (parameter, index) =>
      { parameter with value := values[index]? }
    blocks }

/-- A declared function, with its body unless it is imported. -/
def declaredOfSsa (declaration : Ssa.Declaration) : Except ModuleObstacle Function :=
  if declaration.linkage = .imported then .ok (declarationOfSsa declaration)
  else
    match declaration.body with
    | none => .error (.undefined declaration.name)
    | some body => (functionOfSsa declaration body).mapError (.body declaration.name)

def Module.ofSsa (module : Ssa.Module) (triple : String) :
    Except ModuleObstacle Module := do
  let declarations := module.declarations.toList
  match declarations.find? fun declaration => declaration.prototype.results.length ≠ 1 with
  | some declaration =>
    throw (.resultCount declaration.name declaration.prototype.results.length)
  | none =>
    return ⟨module.name, triple, ← declarations.mapM declaredOfSsa⟩

end ExprLang.Llvm
