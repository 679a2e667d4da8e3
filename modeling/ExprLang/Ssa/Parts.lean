import ExprLang.Ssa.Basic

/-!
# Instructions from outside

The loose form in which other tools hand in an instruction: a kind, and all the data that any
kind can have. `Instruction.ofParts` finds the instruction that the parts stand for.
-/

namespace ExprLang.Ssa

/-- The parts of an instruction, whether its kind has a use for them or not. -/
structure Parts where
  kind : Opcode
  type : MachineType
  word : Int64
  condition : Condition
  slot : Slot
  function : Reference
  values : List Value
  results : List Value
  destinations : List Destination
deriving Repr

namespace Parts

/-- The operation that the parts stand for. Operators and comparisons take exactly two values;
the other kinds pass over what they have no use for. -/
def operation (parts : Parts) : Operation :=
  match parts.kind, parts.values, parts.destinations with
  | .constant, _, _ => .constant parts.type parts.word
  | .arithmetic operation, [left, right], _ => .arithmetic operation left right
  | .compare, [left, right], _ => .compare parts.condition left right
  | .signExtend, operand :: _, _ => .signExtend parts.type operand
  | .load, address :: _, _ => .load parts.type address parts.word
  | .store, value :: address :: _, _ => .store value address parts.word
  | .slotAddress, _, _ => .slotAddress parts.type parts.slot parts.word
  | .slotStore, value :: _, _ => .slotStore value parts.slot parts.word
  | .call, values, _ => .call parts.function values
  | .branch, condition :: _, onTrue :: onFalse :: _ => .branch condition onTrue onFalse
  | .jump, _, target :: _ => .jump target
  | .ret, values, _ => .ret values
  | .unknown code, _, _ => .unknown code
  | kind, values, _ => .malformed kind parts.condition values

end Parts

/-- The instruction that the parts stand for. Destinations that it does not follow stay with
it. -/
def Instruction.ofParts (parts : Parts) : Instruction :=
  let operation := parts.operation
  { results := parts.results, operation
    stray := parts.destinations.drop operation.destinations.length }

end ExprLang.Ssa
