import ExprLang.Expr.Printer
import ExprLang.Ssa.Basic

/-!
# Functions as text

One line for each slot, each referenced function and each instruction; blocks stand in the
order of the layout with an empty line between them.
-/

namespace ExprLang.Ssa

/-! ## Names -/

def Value.render (value : Value) : String :=
  "v" ++ Text.decimal value.index

def Label.render (label : Label) : String :=
  "block" ++ Text.decimal label.index

def Slot.render (slot : Slot) : String :=
  "ss" ++ Text.decimal slot.index

def Reference.render (reference : Reference) : String :=
  "fn" ++ Text.decimal reference.index

def MachineType.render : MachineType → String
  | i1 => "i1"
  | i64 => "i64"
  | other code => "type" ++ Text.decimal code.toNat

def Linkage.render : Linkage → String
  | imported => "import"
  | internal => "local"
  | exported => "export"
  | other code => "linkage" ++ Text.decimal code.toNat

def Condition.render : Condition → String
  | equal => "eq"
  | notEqual => "ne"
  | less => "slt"
  | greaterEqual => "sge"
  | greater => "sgt"
  | lessEqual => "sle"
  | other code => "cc" ++ Text.decimal code.toNat

/-- The mnemonic of an operation; an unknown operation has none. -/
def Opcode.render : Opcode → String
  | constant => "iconst"
  | arithmetic .add => "iadd"
  | arithmetic .subtract => "isub"
  | arithmetic .multiply => "imul"
  | arithmetic .divide => "sdiv"
  | compare => "icmp"
  | signExtend => "sextend"
  | load => "load"
  | store => "store"
  | slotAddress => "stack_addr"
  | slotStore => "stack_store"
  | call => "call"
  | branch => "brif"
  | jump => "jump"
  | ret => "return"
  | unknown _ => ""

def renderValues (values : List Value) : String :=
  String.intercalate ", " (values.map Value.render)

def renderTypes (types : List MachineType) : String :=
  String.intercalate ", " (types.map MachineType.render)

def Prototype.render (prototype : Prototype) : String :=
  "(" ++ renderTypes prototype.parameters ++ ")" ++
    if prototype.results.isEmpty then "" else " -> " ++ renderTypes prototype.results

/-! ## Instructions -/

/-- An offset as text, always with a sign. -/
def renderOffset (offset : Int64) : String :=
  Text.offsetDecimal offset.toInt

def Destination.render (destination : Destination) : String :=
  if destination.arguments.isEmpty then destination.block.render
  else destination.block.render ++ "(" ++ renderValues destination.arguments ++ ")"

def Operation.render (operation : Operation) : String :=
  let mnemonic := operation.opcode.render
  match operation with
  | constant type value => mnemonic ++ "." ++ type.render ++ " " ++ Text.word value
  | arithmetic _ left right => mnemonic ++ " " ++ renderValues [left, right]
  | compare condition left right =>
    mnemonic ++ " " ++ condition.render ++ " " ++ renderValues [left, right]
  | signExtend type operand => mnemonic ++ "." ++ type.render ++ " " ++ operand.render
  | load type address offset =>
    mnemonic ++ "." ++ type.render ++ " " ++ address.render ++ renderOffset offset
  | store value address offset =>
    mnemonic ++ " " ++ value.render ++ ", " ++ address.render ++ renderOffset offset
  | slotAddress type slot offset =>
    mnemonic ++ "." ++ type.render ++ " " ++ slot.render ++ renderOffset offset
  | slotStore value slot offset =>
    mnemonic ++ " " ++ value.render ++ ", " ++ slot.render ++ renderOffset offset
  | call function arguments =>
    mnemonic ++ " " ++ function.render ++ "(" ++ renderValues arguments ++ ")"
  | branch condition onTrue onFalse =>
    mnemonic ++ " " ++ String.intercalate ", "
      [condition.render, onTrue.render, onFalse.render]
  | jump target => mnemonic ++ " " ++ target.render
  | ret values => if values.isEmpty then mnemonic else mnemonic ++ " " ++ renderValues values
  | malformed .compare condition values =>
    mnemonic ++ " " ++ condition.render ++ " " ++ renderValues values
  | malformed _ _ values => mnemonic ++ " " ++ renderValues values
  | unknown code => "unknown." ++ Text.decimal code.toNat

def Instruction.render (instruction : Instruction) : String :=
  if instruction.results.isEmpty then instruction.operation.render
  else renderValues instruction.results ++ " = " ++ instruction.operation.render

/-! ## Functions -/

namespace Function

def renderHeading (function : Function) (label : Label) : String :=
  let parameters := (function.block label).parameters
  if parameters.isEmpty then label.render ++ ":\n"
  else
    label.render ++ "(" ++ String.intercalate ", " (parameters.map fun value =>
      value.render ++ ": " ++ (function.type value).render) ++ "):\n"

def renderBlock (function : Function) (label : Label) : String :=
  function.renderHeading label ++ String.join ((function.block label).instructions.map
    fun instruction => "    " ++ instruction.render ++ "\n")

def renderPreamble (function : Function) : List String :=
  (function.slots.toList.zipIdx.map fun (size, index) =>
    "    " ++ (Slot.mk index).render ++ " = explicit_slot " ++ Text.decimal size.toNat ++ "\n") ++
  (function.references.toList.zipIdx.map fun (external, index) =>
    "    " ++ (Reference.mk index).render ++ " = %" ++ external.name ++
      external.prototype.render ++ "\n")

def render (function : Function) : String :=
  let preamble := function.renderPreamble
  let opening := if preamble.isEmpty then "" else "\n"
  let blocks := function.layout.map function.renderBlock
  "function %" ++ function.name ++ function.prototype.render ++ " \x7b\n" ++
    String.join preamble ++
    (if blocks.isEmpty then "" else opening ++ String.intercalate "\n" blocks) ++ "\x7d\n"

end Function

end ExprLang.Ssa
