import ExprLang.Ssa.Machine

/-!
# Interpreters

An interpreter answers one call after the other, and it has one block of memory for all of them:
the octets in use come first, and those behind them still hold what was written there before.
Entering a function takes its slots into use and clears them. Leaving it, with results or with a
fault, gives them back as they are.
-/

namespace ExprLang.Ssa

/-! ## Memory that outlives calls -/

structure Stack where
  octets : Array UInt8
  top : Nat

namespace Stack

/-- Memory that was never used. -/
def fresh : Stack := ⟨Array.replicate Memory.capacity 0, 0⟩

def memory (stack : Stack) : Memory := ⟨stack.octets⟩

def clear : (count : Nat) → (offset : Nat) → Array UInt8 → Array UInt8
  | 0, _, octets => octets
  | count + 1, offset, octets => clear count (offset + 1) (octets.setIfInBounds offset 0)

/-- Takes cleared octets for slots into use and gives their addresses, as long as there are
enough. -/
def allocateAll : Stack → List UInt32 → Option (List Int64) × Stack
  | stack, [] => (some [], stack)
  | ⟨octets, top⟩, size :: sizes =>
    let room := Memory.slotRoom size
    if top + room ≤ octets.size then
      let (addresses, stack) := allocateAll ⟨clear room top octets, top + room⟩ sizes
      (addresses.map fun others => (Memory.base + Int64.ofNat top) :: others, stack)
    else (none, ⟨octets, top⟩)

/-- Whether an access of some octets at an address stays inside the octets in use; computed with
words. -/
def permits (stack : Stack) (address : Int64) (count : Nat) : Bool :=
  let offset := address - Memory.base
  0 ≤ offset && offset + Int64.ofNat count ≤ Int64.ofNat stack.top

def reaches (stack : Stack) (type : MachineType) (address : Int64) : Bool :=
  let offset := (address - Memory.base).toNatClampNeg
  if type = .i64 then offset + 8 ≤ stack.octets.size else offset < stack.octets.size

def load (stack : Stack) (type : MachineType) (address : Int64) : Option (Except Trap Int64) :=
  if stack.permits address type.size then (stack.memory.load? type address).map .ok
  else some (.error (.memoryAccess address))

def write (stack : Stack) (type : MachineType) (address word : Int64) : Stack :=
  let offset := (address - Memory.base).toNatClampNeg
  if type = .i64 then { stack with octets := Memory.setNumber 8 offset word.toUInt64 stack.octets }
  else
    { stack with
      octets := stack.octets.setIfInBounds offset (word.toUInt64 &&& 1).toUInt8 }

end Stack

/-! ## Interpreters -/

/-- What an interpreter keeps from one call to the next: its memory, the number of activations,
the number of instructions so far and the state of the host. -/
structure Interpreter (σ : Type) where
  stack : Stack
  depth : Nat
  steps : Nat
  host : σ

namespace Interpreter

def start (host : σ) : Interpreter σ := ⟨.fresh, 0, 0, host⟩

/-- The interpreter after an activation was left for which so many octets were in use before. -/
def leave : Interpreter σ → (floor : Nat) → Interpreter σ
  | ⟨⟨octets, _⟩, depth, steps, host⟩, floor => ⟨⟨octets, floor⟩, depth - 1, steps, host⟩

def enter (function : Function) (arguments : List Int64) :
    Interpreter σ → Except Fault Frame × Interpreter σ
  | ⟨stack, depth, steps, host⟩ =>
    let wanted := function.prototype.parameters.length
    if arguments.length ≠ wanted then
      (.error (.arguments function.name arguments.length wanted), ⟨stack, depth, steps, host⟩)
    else if maximalDepth ≤ depth then
      (.error (.trap function.name .callDepth), ⟨stack, depth, steps, host⟩)
    else
      let floor := stack.top
      let (slots?, stack) := stack.allocateAll function.slots.toList
      let entered : Interpreter σ := ⟨stack, depth + 1, steps, host⟩
      match slots? with
      | none => (.error (.trap function.name .stackOverflow), entered.leave floor)
      | some slots =>
        let frame? : Option Frame := do
          let entry ← function.entry?
          let block ← function.block? entry
          let registers ←
            writeAll (Array.replicate function.values.size 0) block.parameters arguments
          return ⟨function, entry, block.instructions, registers, slots.toArray, floor⟩
        match frame? with
        | none => (.error .broken, entered.leave floor)
        | some frame => (.ok frame, entered)

end Interpreter

/-! ## Executions -/

/-- An interpreter at work: the innermost activation, and those that wait with the values that
the results are for. -/
structure Execution (σ : Type) where
  frame : Frame
  callers : List (Frame × List Value)
  interpreter : Interpreter σ

inductive Progress (σ : Type) where
  | next (execution : Execution σ)
  | done (outcome : Except Fault (List Int64)) (interpreter : Interpreter σ)

namespace Execution

/-- Ends an execution: all activations are left, the innermost one first. -/
def finish (frame : Frame) (callers : List (Frame × List Value)) (interpreter : Interpreter σ)
    (outcome : Except Fault (List Int64)) : Progress σ :=
  .done outcome ((frame :: callers.map Prod.fst).foldl
    (fun interpreter frame => interpreter.leave frame.floor) interpreter)

def entered? (environment : Environment σ) (function : Function) (registers : Array Int64) :
    Operation → Option (Function × List Int64)
  | .call reference arguments => do
    let words ← readAll registers arguments
    let external ← function.references[reference.index]?
    match environment.callee external.id with
    | .body callee => some (callee, words)
    | _ => none
  | _ => none

def written? (function : Function) (slots registers : Array Int64) :
    Operation → Option (MachineType × Int64 × Int64)
  | .store value address offset => do
    return (← function.type? value, (← registers[address.index]?) + offset,
      ← registers[value.index]?)
  | .slotStore value slot offset => do
    return (← function.type? value, (← slots[slot.index]?) + offset,
      ← registers[value.index]?)
  | _ => none

/-- Executes an instruction that takes no notice of memory, as a machine without memory does. -/
def proceed (environment : Environment σ) (frame : Frame) (callers : List (Frame × List Value)) :
    Interpreter σ → Progress σ
  | ⟨stack, depth, steps, host⟩ =>
    match Machine.step environment ⟨frame, callers, depth, .empty, steps, host⟩ with
    | .next ⟨frame, callers, depth, _, steps, host⟩ =>
      .next ⟨frame, callers, ⟨stack, depth, steps, host⟩⟩
    | .halt ⟨outcome, steps, host⟩ => finish frame callers ⟨stack, depth, steps, host⟩ outcome

def step (environment : Environment σ) : Execution σ → Progress σ
  | ⟨⟨function, block, [], registers, slots, floor⟩, callers, interpreter⟩ =>
    finish ⟨function, block, [], registers, slots, floor⟩ callers interpreter
      (.error (.trap function.name (.fellOff block)))
  | ⟨⟨function, block, instruction :: rest, registers, slots, floor⟩, callers,
      ⟨stack, depth, previous, host⟩⟩ =>
    let frame : Frame := ⟨function, block, rest, registers, slots, floor⟩
    let steps := previous + 1
    if environment.exceeds steps then
      finish frame callers ⟨stack, depth, steps, host⟩ (.error (.trap function.name .stepLimit))
    else
      match instruction.operation with
      | .load type address offset =>
        match (registers[address.index]?).bind fun start => stack.load type (start + offset),
          instruction.results with
        | some (.ok word), result :: _ =>
          if result.index < registers.size then
            .next ⟨⟨function, block, rest, registers.setIfInBounds result.index word, slots,
              floor⟩, callers, ⟨stack, depth, steps, host⟩⟩
          else finish frame callers ⟨stack, depth, steps, host⟩ (.error .broken)
        | some (.error trap), _ =>
          finish frame callers ⟨stack, depth, steps, host⟩ (.error (.trap function.name trap))
        | _, _ => finish frame callers ⟨stack, depth, steps, host⟩ (.error .broken)
      | .store _ _ _ | .slotStore _ _ _ =>
        match written? function slots registers instruction.operation with
        | none => finish frame callers ⟨stack, depth, steps, host⟩ (.error .broken)
        | some (type, address, word) =>
          if !stack.permits address type.size then
            finish frame callers ⟨stack, depth, steps, host⟩
              (.error (.trap function.name (.memoryAccess address)))
          else if !stack.reaches type address then
            finish frame callers ⟨stack, depth, steps, host⟩ (.error .broken)
          else .next ⟨frame, callers, ⟨stack.write type address word, depth, steps, host⟩⟩
      | .ret values =>
        match readAll registers values with
        | none => finish frame callers ⟨stack, depth, steps, host⟩ (.error .broken)
        | some words =>
          match callers with
          | [] => finish frame [] ⟨stack, depth, steps, host⟩ (.ok words)
          | (caller, results) :: callers =>
            match writeAll caller.registers results words with
            | none =>
              finish frame ((caller, results) :: callers) ⟨stack, depth, steps, host⟩
                (.error .broken)
            | some registers =>
              .next ⟨{ caller with registers }, callers,
                (⟨stack, depth, steps, host⟩ : Interpreter σ).leave floor⟩
      | operation =>
        match entered? environment function registers operation with
        | none =>
          proceed environment ⟨function, block, instruction :: rest, registers, slots, floor⟩
            callers ⟨stack, depth, previous, host⟩
        | some (callee, words) =>
          match Interpreter.enter callee words ⟨stack, depth, steps, host⟩ with
          | (.error fault, interpreter) => finish frame callers interpreter (.error fault)
          | (.ok inner, interpreter) =>
            .next ⟨inner, (frame, instruction.results) :: callers, interpreter⟩

/-- Runs until the end, for at most `fuel` instructions. -/
def run (environment : Environment σ) :
    (fuel : Nat) → Execution σ → Option (Except Fault (List Int64) × Interpreter σ)
  | 0, _ => none
  | fuel + 1, execution =>
    match step environment execution with
    | .next execution => run environment fuel execution
    | .done outcome interpreter => some (outcome, interpreter)

end Execution

namespace Interpreter

/-- Answers a call of a function of the module. The answer is missing only if the fuel does not
last. -/
def call (environment : Environment σ) (fuel : Nat) (name : String) (arguments : List Int64)
    (interpreter : Interpreter σ) : Option (Except Fault (List Int64) × Interpreter σ) :=
  match environment.module.find? name with
  | none => some (.error (.noFunction name), interpreter)
  | some id =>
    match environment.callee id with
    | .absent fault => some (.error fault, interpreter)
    | .host name wanted run =>
      let (outcome, host) := callHost name wanted run arguments interpreter.host
      some (outcome, { interpreter with host })
    | .body function =>
      match interpreter.enter function arguments with
      | (.error fault, interpreter) => some (.error fault, interpreter)
      | (.ok frame, interpreter) => Execution.run environment fuel ⟨frame, [], interpreter⟩

end Interpreter

end ExprLang.Ssa
