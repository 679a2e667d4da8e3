import ExprLang.Ssa.Builder
import Mathlib

/-!
# Histories of builders

A function is built by a sequence of commands. The history of a builder keeps, besides its
state, the script of every block: what was appended to the block, and which variables were
given a value or read there, in the order in which it happened. A zero that a lookup puts in
front of a block is not part of its script.
-/

namespace ExprLang.Ssa

/-! ## Scripts -/

inductive Event where
  | instruction (instruction : Instruction)
  | define (var : Variable) (value : Value)
  | use (var : Variable) (value : Value)
deriving DecidableEq

namespace Event

def instruction? : Event → Option Instruction
  | .instruction appended => some appended
  | _ => none

def handed : Event → List Value
  | .instruction appended => appended.operation.operands ++
      appended.operation.destinations.flatMap Destination.arguments
  | .define _ value => [value]
  | .use _ _ => []

end Event

def emitted (events : List Event) : List Instruction :=
  events.filterMap Event.instruction?

@[simp] theorem emitted_nil : emitted [] = [] := rfl

@[simp] theorem emitted_append (first second : List Event) :
    emitted (first ++ second) = emitted first ++ emitted second :=
  List.filterMap_append

@[simp] theorem emitted_instruction (instruction : Instruction) (events : List Event) :
    emitted (.instruction instruction :: events) = instruction :: emitted events := rfl

@[simp] theorem emitted_define (var : Variable) (value : Value) (events : List Event) :
    emitted (.define var value :: events) = emitted events := rfl

@[simp] theorem emitted_use (var : Variable) (value : Value) (events : List Event) :
    emitted (.use var value :: events) = emitted events := rfl

theorem mem_emitted {events : List Event} {instruction : Instruction} :
    instruction ∈ emitted events ↔ .instruction instruction ∈ events := by
  simp only [emitted, List.mem_filterMap]
  constructor
  · rintro ⟨event, member, equal⟩
    cases event <;> cases equal
    exact member
  · intro member
    exact ⟨_, member, rfl⟩

/-! ## Commands -/

inductive Emission where
  | constant (type : MachineType) (word : Int64)
  | arithmetic (operation : Arithmetic) (left right : Value)
  | compare (condition : Condition) (left right : Value)
  | signExtend (type : MachineType) (operand : Value)
  | load (type : MachineType) (address : Value) (offset : Int32)
  | store (value address : Value) (offset : Int32)
  | slotAddress (slot : Slot) (offset : Int32)
  | slotStore (value : Value) (slot : Slot) (offset : Int32)
  | call (reference : Reference) (arguments : List Value)
  | branch (condition : Value) (onTrue onFalse : Destination)
  | jump (target : Destination)
  | ret (values : List Value)

def Emission.build : Emission → Build Unit
  | constant type word => discard (Build.constant type word)
  | arithmetic operation left right => discard (Build.arithmetic operation left right)
  | compare condition left right => discard (Build.compare condition left right)
  | signExtend type operand => discard (Build.signExtend type operand)
  | load type address offset => discard (Build.load type address offset)
  | store value address offset => Build.store value address offset
  | slotAddress slot offset => discard (Build.slotAddress slot offset)
  | slotStore value slot offset => Build.slotStore value slot offset
  | call reference arguments => discard (Build.call reference arguments)
  | branch condition onTrue onFalse => Build.branch condition onTrue onFalse
  | jump target => Build.jump target
  | ret values => Build.ret values

/-- What the caller of a builder can ask for. -/
inductive Command where
  | createBlock
  | switchTo (label : Label)
  | sealBlock (label : Label)
  | sealAll
  | appendParameter (label : Label) (type : MachineType)
  | appendFunctionParameters (label : Label)
  | parameters (label : Label)
  | declareVariable (var : Variable) (type : MachineType)
  | defineVariable (var : Variable) (value : Value)
  | useVariable (var : Variable)
  | importFunction (module : Module) (id : FunctionId)
  | createSlot (size : UInt32)
  | emit (emission : Emission)

/-- A builder with the scripts of its blocks. -/
structure History where
  builder : Builder
  script : Label → List Event

namespace History

def start (id : FunctionId) (declaration : Declaration) : History :=
  ⟨.start id declaration, fun _ => []⟩

def after (history : History) (step : Build α) : History :=
  { history with builder := (step.run history.builder).2 }

def note (history : History) (current : Option Label) (event : Event) : History :=
  match current with
  | none => history
  | some label =>
    { history with
      script := Function.update history.script label (history.script label ++ [event]) }

def perform (history : History) : Command → History
  | .createBlock => history.after Build.createBlock
  | .switchTo label => history.after (Build.switchTo label)
  | .sealBlock label => history.after (Build.sealBlock label)
  | .sealAll => history.after Build.sealAll
  | .appendParameter label type => history.after (Build.appendParameter label type)
  | .appendFunctionParameters label => history.after (Build.appendFunctionParameters label)
  | .parameters label => history.after (Build.parameters label)
  | .declareVariable var type => history.after (Build.declareVariable var type)
  | .defineVariable var value =>
    (history.after (Build.defineVariable var value)).note history.builder.current
      (.define var value)
  | .useVariable var =>
    (history.after (Build.useVariable var)).note history.builder.current
      (.use var ((Build.useVariable var).run history.builder).1)
  | .importFunction module id => history.after (Build.importFunction module id)
  | .createSlot size => history.after (Build.createSlot size)
  | .emit emission =>
    let later := history.after emission.build
    match history.builder.current.bind fun label =>
        (later.builder.function.block label).instructions.getLast? with
    | none => later
    | some instruction => later.note history.builder.current (.instruction instruction)

def performAll (history : History) (commands : List Command) : History :=
  commands.foldl perform history

end History

end ExprLang.Ssa
