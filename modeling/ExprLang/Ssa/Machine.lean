import ExprLang.Ssa.Memory
import ExprLang.Ssa.Module

/-!
# Running functions

A machine executes the functions of a module one instruction at a time. Its state is the
activation that is being executed, the activations that wait for it, the stack memory, the
number of instructions so far and the state of the host, which supplies the imported
functions. A run ends with results or with a fault.
-/

namespace ExprLang.Ssa

/-! ## Faults -/

inductive Trap where
  | divisionByZero
  | memoryAccess (address : Int64)
  | stackOverflow
  | callDepth
  | stepLimit
  | fellOff (block : Label)
deriving DecidableEq, Repr

def Trap.message : Trap → String
  | divisionByZero => "integer division by zero"
  | memoryAccess address =>
    "memory access at " ++ Text.signedHexadecimal address.toInt ++ " outside the stack"
  | stackOverflow => "stack overflow"
  | callDepth => "call stack exhausted"
  | stepLimit => "step limit exceeded"
  | fellOff block => "fell off the end of " ++ block.render

/-- Why a run ends without results. `broken` means that a number named nothing, which cannot
happen to a function that was accepted. -/
inductive Fault where
  | trap (function : String) (cause : Trap)
  | noFunction (name : String)
  | noBody (name : String)
  | noHost (name : String)
  | hostFailed (name : String) (text : String)
  | hostResults (name : String) (found wanted : Nat)
  | arguments (name : String) (found wanted : Nat)
  | uninterpretable (opcode : Opcode)
  | broken
deriving DecidableEq, Repr

def Fault.message : Fault → String
  | trap function cause => "trap in " ++ function ++ ": " ++ cause.message
  | noFunction name => "ssa: no function named " ++ name
  | noBody name => "ssa: function " ++ name ++ " has no body"
  | noHost name => "ssa: no host implementation for " ++ name
  | hostFailed name text => name ++ ": " ++ text
  | hostResults name found wanted =>
    "ssa: host " ++ name ++ " returned " ++ Text.decimal found ++ " values, want " ++
      Text.decimal wanted
  | arguments name found wanted =>
    "ssa: " ++ name ++ " called with " ++ Text.decimal found ++ " arguments, want " ++
      Text.decimal wanted
  | uninterpretable opcode => "ssa: cannot interpret " ++ opcode.render
  | broken => "ssa: broken function"

/-! ## Surroundings -/

/-- A function of the host: it takes arguments and changes the state of the host. A failure
is told in words. -/
abbrev HostFunction (σ : Type) := List Int64 → σ → Except String (List Int64) × σ

abbrev Host (σ : Type) := String → Option (HostFunction σ)

/-- What does not change while a machine runs. Without a limit any number of instructions may
be executed. -/
structure Environment (σ : Type) where
  module : Module
  host : Host σ
  limit : Option Nat

def maximalDepth : Nat := 10000

/-! ## States -/

/-- An activation of a function. `rest` are the instructions of the current block that are
still to be executed, `floor` is the size of the memory when the function was entered. -/
structure Frame where
  function : Function
  block : Label
  rest : List Instruction
  registers : Array Int64
  slots : Array Int64
  floor : Nat

/-- The state of a running machine. An activation that waits keeps the values that the
results are for. -/
structure Machine (σ : Type) where
  frame : Frame
  callers : List (Frame × List Value)
  depth : Nat
  memory : Memory
  steps : Nat
  host : σ

structure Halt (σ : Type) where
  outcome : Except Fault (List Int64)
  steps : Nat
  host : σ

inductive Step (σ : Type) where
  | next (machine : Machine σ)
  | halt (halt : Halt σ)

def readAll (registers : Array α) : List Value → Option (List α)
  | [] => some []
  | value :: values => do
    return (← registers[value.index]?) :: (← readAll registers values)

/-- Writes registers one after the other. There may be more words than registers. -/
def writeAll (registers : Array α) : List Value → List α → Option (Array α)
  | [], _ => some registers
  | value :: values, word :: words =>
    if value.index < registers.size then
      writeAll (registers.setIfInBounds value.index word) values words
    else none
  | _ :: _, [] => none

def allocateAll (memory : Memory) : List UInt32 → Option (List Int64 × Memory)
  | [] => some ([], memory)
  | size :: sizes => do
    let (address, memory) ← memory.allocate size
    let (addresses, memory) ← allocateAll memory sizes
    return (address :: addresses, memory)

/-- The activation of a function on arguments, and the memory with its slots, of which
`floor` octets were in use before. -/
@[noinline]
def activate (function : Function) (arguments : List Int64) (floor : Nat) (memory : Memory) :
    Except Fault (Frame × Memory) :=
  match allocateAll memory function.slots.toList with
  | none => .error (.trap function.name .stackOverflow)
  | some (slots, memory) =>
    let frame? := do
      let entry ← function.entry?
      let block ← function.block? entry
      let registers ←
        writeAll (Array.replicate function.values.size 0) block.parameters arguments
      return ⟨function, entry, block.instructions, registers, slots.toArray, floor⟩
    match frame? with
    | none => .error .broken
    | some frame => .ok (frame, memory)

def enter (function : Function) (arguments : List Int64) (depth : Nat) (memory : Memory) :
    Except Fault (Frame × Memory) :=
  let wanted := function.prototype.parameters.length
  if arguments.length ≠ wanted then
    .error (.arguments function.name arguments.length wanted)
  else if maximalDepth ≤ depth then .error (.trap function.name .callDepth)
  else activate function arguments memory.size memory

inductive Callee (σ : Type) where
  | body (function : Function)
  | host (name : String) (wanted : Nat) (run : HostFunction σ)
  | absent (fault : Fault)

namespace Environment

def callee (environment : Environment σ) (id : FunctionId) : Callee σ :=
  match environment.module.declaration? id with
  | none => .absent .broken
  | some declaration =>
    match declaration.body with
    | some function => .body function
    | none =>
      if declaration.linkage ≠ .imported then .absent (.noBody declaration.name)
      else
        match environment.host declaration.name with
        | none => .absent (.noHost declaration.name)
        | some run => .host declaration.name declaration.prototype.results.length run

@[inline]
def exceeds (environment : Environment σ) (steps : Nat) : Bool :=
  match environment.limit with
  | some limit => limit < steps
  | none => false

end Environment

def callHost (name : String) (wanted : Nat) (run : HostFunction σ) (arguments : List Int64)
    (host : σ) : Except Fault (List Int64) × σ :=
  match run arguments host with
  | (.error text, host) => (.error (.hostFailed name text), host)
  | (.ok results, host) =>
    if results.length = wanted then (.ok results, host)
    else (.error (.hostResults name results.length wanted), host)

namespace Machine

def fail (steps : Nat) (host : σ) (fault : Fault) : Step σ :=
  .halt ⟨.error fault, steps, host⟩

/-- Passes control to a block. All arguments are read before a parameter is written. -/
@[inline]
def follow (function : Function) (registers : Array Int64) (destination : Destination) :
    Option (List Instruction × Array Int64) := do
  let words ← readAll registers destination.arguments
  let block ← function.block? destination.block
  let registers ← writeAll registers block.parameters words
  return (block.instructions, registers)

/-- The result of an operation that only computes. Nothing else changes. -/
@[inline]
def compute (function : Function) (slots registers : Array Int64) (memory : Memory) :
    Operation → Option (Except Trap Int64)
  | .constant _ value => some (.ok value)
  | .arithmetic operation left right => do
    let left ← registers[left.index]?
    let right ← registers[right.index]?
    match operation with
    | .add => some (.ok (left + right))
    | .subtract => some (.ok (left - right))
    | .multiply => some (.ok (left * right))
    | .divide =>
      if right = 0 then some (.error .divisionByZero) else some (.ok (left / right))
  | .compare condition left right => do
    let left ← registers[left.index]?
    let right ← registers[right.index]?
    some (.ok (if condition.holds left right then 1 else 0))
  | .signExtend _ operand => do
    let word ← registers[operand.index]?
    let type ← function.type? operand
    some (.ok (if type = .i1 then -(word &&& 1) else word))
  | .slotAddress _ slot offset => do
    let address ← slots[slot.index]?
    some (.ok (address + offset))
  | .load type address offset => do
    let start ← registers[address.index]?
    let place := start + offset
    if memory.permits place type.size then (memory.load? type place).map .ok
    else some (.error (.memoryAccess place))
  | _ => none

@[inline]
def write (function : Function) (registers : Array Int64) (memory : Memory) (value : Value)
    (place : Int64) : Option (Except Trap Memory) := do
  let word ← registers[value.index]?
  let type ← function.type? value
  if memory.permits place type.size then (memory.store? type place word).map .ok
  else some (.error (.memoryAccess place))

@[inline]
def update (function : Function) (slots registers : Array Int64) (memory : Memory) :
    Operation → Option (Except Trap Memory)
  | .store value address offset => do
    let start ← registers[address.index]?
    write function registers memory value (start + offset)
  | .slotStore value slot offset => do
    let start ← slots[slot.index]?
    write function registers memory value (start + offset)
  | _ => none

@[inline]
def step (environment : Environment σ) : Machine σ → Step σ
  | ⟨⟨function, block, [], _, _, _⟩, _, _, _, steps, host⟩ =>
    fail steps host (.trap function.name (.fellOff block))
  | ⟨⟨function, block, instruction :: rest, registers, slots, floor⟩,
      callers, depth, memory, previous, host⟩ =>
    let steps := previous + 1
    if environment.exceeds steps then
      fail steps host (.trap function.name .stepLimit)
    else
      match instruction.operation with
      | .call reference arguments =>
        match readAll registers arguments, function.references[reference.index]? with
        | some words, some external =>
          match environment.callee external.id with
          | .absent fault => fail steps host fault
          | .host name wanted run =>
            match callHost name wanted run words host with
            | (.error fault, host) => fail steps host fault
            | (.ok results, host) =>
              match writeAll registers instruction.results results with
              | some registers =>
                .next ⟨⟨function, block, rest, registers, slots, floor⟩,
                  callers, depth, memory, steps, host⟩
              | none => fail steps host .broken
          | .body callee =>
            match enter callee words depth memory with
            | .error fault => fail steps host fault
            | .ok (frame, memory) =>
              .next ⟨frame,
                (⟨function, block, rest, registers, slots, floor⟩, instruction.results) ::
                  callers,
                depth + 1, memory, steps, host⟩
        | _, _ => fail steps host .broken
      | .branch condition onTrue onFalse =>
        match registers[condition.index]? with
        | some word =>
          let destination := if word ≠ 0 then onTrue else onFalse
          match follow function registers destination with
          | some (instructions, registers) =>
            .next ⟨⟨function, destination.block, instructions, registers, slots, floor⟩,
              callers, depth, memory, steps, host⟩
          | none => fail steps host .broken
        | none => fail steps host .broken
      | .jump destination =>
        match follow function registers destination with
        | some (instructions, registers) =>
          .next ⟨⟨function, destination.block, instructions, registers, slots, floor⟩,
            callers, depth, memory, steps, host⟩
        | none => fail steps host .broken
      | .ret values =>
        match readAll registers values with
        | some words =>
          match callers with
          | [] => .halt ⟨.ok words, steps, host⟩
          | (caller, results) :: callers =>
            match writeAll caller.registers results words with
            | some registers =>
              .next ⟨{ caller with registers }, callers, depth - 1, memory.release floor,
                steps, host⟩
            | none => fail steps host .broken
        | none => fail steps host .broken
      | .unknown code => fail steps host (.uninterpretable (.unknown code))
      | .store value address offset =>
        match update function slots registers memory (.store value address offset) with
        | some (.ok memory) =>
          .next ⟨⟨function, block, rest, registers, slots, floor⟩,
            callers, depth, memory, steps, host⟩
        | some (.error trap) => fail steps host (.trap function.name trap)
        | none => fail steps host .broken
      | .slotStore value slot offset =>
        match update function slots registers memory (.slotStore value slot offset) with
        | some (.ok memory) =>
          .next ⟨⟨function, block, rest, registers, slots, floor⟩,
            callers, depth, memory, steps, host⟩
        | some (.error trap) => fail steps host (.trap function.name trap)
        | none => fail steps host .broken
      | operation =>
        match compute function slots registers memory operation, instruction.results with
        | some (.ok word), result :: _ =>
          if result.index < registers.size then
            .next ⟨⟨function, block, rest, registers.setIfInBounds result.index word,
              slots, floor⟩, callers, depth, memory, steps, host⟩
          else fail steps host .broken
        | some (.error trap), _ => fail steps host (.trap function.name trap)
        | _, _ => fail steps host .broken

/-- Runs until the end, for at most `fuel` instructions. -/
def run (environment : Environment σ) : (fuel : Nat) → Machine σ → Option (Halt σ)
  | 0, _ => none
  | fuel + 1, machine =>
    match step environment machine with
    | .next machine => run environment fuel machine
    | .halt halt => some halt

end Machine

namespace Environment

/-- The state in which a call from outside starts, or its end if nothing is to be
executed. -/
def start (environment : Environment σ) (name : String) (arguments : List Int64)
    (steps : Nat) (host : σ) : Step σ :=
  match environment.module.find? name with
  | none => Machine.fail steps host (.noFunction name)
  | some id =>
    match environment.callee id with
    | .absent fault => Machine.fail steps host fault
    | .host name wanted run =>
      let (outcome, host) := callHost name wanted run arguments host
      .halt ⟨outcome, steps, host⟩
    | .body function =>
      match enter function arguments 0 .empty with
      | .error fault => Machine.fail steps host fault
      | .ok (frame, memory) => .next ⟨frame, [], 1, memory, steps, host⟩

/-- Calls a function of the module. The answer is missing only if the fuel does not last. -/
def call (environment : Environment σ) (fuel : Nat) (name : String) (arguments : List Int64)
    (steps : Nat) (host : σ) : Option (Halt σ) :=
  match environment.start name arguments steps host with
  | .next machine => machine.run environment fuel
  | .halt halt => some halt

end Environment

end ExprLang.Ssa
