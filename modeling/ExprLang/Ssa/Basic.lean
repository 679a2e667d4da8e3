import ExprLang.Expr

/-!
# Functions in static single assignment form

A function is a graph of basic blocks. Every value is defined in one place, either as the
result of an instruction or as a parameter of a block, and a branch passes arguments for the
parameters of the block that it leads to. Values, blocks and everything else that a function
owns are known by number; a number says nothing about whether the thing exists.
-/

namespace ExprLang.Ssa

/-! ## Names -/

structure Value where
  index : Nat
deriving DecidableEq, Repr, Inhabited

structure Label where
  index : Nat
deriving DecidableEq, Repr, Inhabited

structure Variable where
  index : Nat
deriving DecidableEq, Repr, Inhabited

structure Slot where
  index : Nat
deriving DecidableEq, Repr, Inhabited

structure FunctionId where
  index : Nat
deriving DecidableEq, Repr, Inhabited

structure Reference where
  index : Nat
deriving DecidableEq, Repr, Inhabited

/-! ## Machine types -/

/-- The type of a value: a truth value, a word, or a type without a name. -/
inductive MachineType where
  | i1
  | i64
  | other (code : UInt8)
deriving DecidableEq, Repr, Inhabited

namespace MachineType

def ofCode (code : UInt8) : MachineType :=
  if code = 1 then i1 else if code = 2 then i64 else other code

def absent : MachineType := other 0

def size : MachineType → Nat
  | i64 => 8
  | _ => 1

end MachineType

structure Prototype where
  parameters : List MachineType
  results : List MachineType
deriving DecidableEq, Repr, Inhabited

inductive Linkage where
  | imported
  | internal
  | exported
  | other (code : UInt8)
deriving DecidableEq, Repr

def Linkage.ofCode (code : UInt8) : Linkage :=
  if code = 1 then imported else if code = 2 then internal
  else if code = 3 then exported else other code

/-! ## Conditions -/

inductive Condition where
  | equal
  | notEqual
  | less
  | greaterEqual
  | greater
  | lessEqual
  | other (code : UInt8)
deriving DecidableEq, Repr

namespace Condition

def ofCode (code : UInt8) : Condition :=
  match code.toNat with
  | 1 => equal
  | 2 => notEqual
  | 3 => less
  | 4 => greaterEqual
  | 5 => greater
  | 6 => lessEqual
  | _ => other code

/-- Whether a condition holds. A condition without a meaning never does. -/
@[inline]
def holds : Condition → Int64 → Int64 → Bool
  | equal, left, right => left == right
  | notEqual, left, right => left != right
  | less, left, right => left < right
  | greaterEqual, left, right => right ≤ left
  | greater, left, right => right < left
  | lessEqual, left, right => left ≤ right
  | other _, _, _ => false

end Condition

/-! ## Instructions -/

inductive Opcode where
  | constant
  | arithmetic (operation : Arithmetic)
  | compare
  | signExtend
  | load
  | store
  | slotAddress
  | slotStore
  | call
  | branch
  | jump
  | ret
  | unknown (code : UInt8)
deriving DecidableEq, Repr

namespace Opcode

def listed : List Opcode :=
  [constant, arithmetic .add, arithmetic .subtract, arithmetic .multiply, arithmetic .divide,
   compare, signExtend, load, store, slotAddress, slotStore, call, branch, jump, ret]

def ofCode (code : UInt8) : Opcode :=
  if code = 0 then unknown code else listed.getD (code.toNat - 1) (unknown code)

def isTerminator : Opcode → Bool
  | branch | jump | ret => true
  | _ => false

end Opcode

/-- Where a branch leads, with the arguments for the parameters of that block. -/
structure Destination where
  block : Label
  arguments : List Value
deriving DecidableEq, Repr

/-- An operation with its operands. The last but one is an operation of a known kind that does
not have the operands or destinations which that kind takes. -/
inductive Operation where
  | constant (type : MachineType) (value : Int64)
  | arithmetic (operation : Arithmetic) (left right : Value)
  | compare (condition : Condition) (left right : Value)
  | signExtend (type : MachineType) (operand : Value)
  | load (type : MachineType) (address : Value) (offset : Int64)
  | store (value address : Value) (offset : Int64)
  | slotAddress (type : MachineType) (slot : Slot) (offset : Int64)
  | slotStore (value : Value) (slot : Slot) (offset : Int64)
  | call (function : Reference) (arguments : List Value)
  | branch (condition : Value) (onTrue onFalse : Destination)
  | jump (target : Destination)
  | ret (values : List Value)
  | malformed (kind : Opcode) (condition : Condition) (values : List Value)
  | unknown (code : UInt8)
deriving DecidableEq, Repr

namespace Operation

def opcode : Operation → Opcode
  | constant _ _ => .constant
  | arithmetic operation _ _ => .arithmetic operation
  | compare _ _ _ => .compare
  | signExtend _ _ => .signExtend
  | load _ _ _ => .load
  | store _ _ _ => .store
  | slotAddress _ _ _ => .slotAddress
  | slotStore _ _ _ => .slotStore
  | call _ _ => .call
  | branch _ _ _ => .branch
  | jump _ => .jump
  | ret _ => .ret
  | malformed kind _ _ => kind
  | unknown code => .unknown code

/-- The values that an operation works on; arguments of branches are not among them. -/
def operands : Operation → List Value
  | constant _ _ => []
  | arithmetic _ left right => [left, right]
  | compare _ left right => [left, right]
  | signExtend _ operand => [operand]
  | load _ address _ => [address]
  | store value address _ => [value, address]
  | slotAddress _ _ _ => []
  | slotStore value _ _ => [value]
  | call _ arguments => arguments
  | branch condition _ _ => [condition]
  | jump _ => []
  | ret values => values
  | malformed _ _ values => values
  | unknown _ => []

def destinations : Operation → List Destination
  | branch _ onTrue onFalse => [onTrue, onFalse]
  | jump target => [target]
  | _ => []

def isTerminator (operation : Operation) : Bool :=
  operation.opcode.isTerminator

def changeDestination (change : Destination → Destination) (side : Nat) :
    Operation → Operation
  | branch condition onTrue onFalse =>
    match side with
    | 0 => branch condition (change onTrue) onFalse
    | 1 => branch condition onTrue (change onFalse)
    | _ => branch condition onTrue onFalse
  | jump target => if side = 0 then jump (change target) else jump target
  | operation => operation

end Operation

/-- An operation with the values that it defines. An instruction from elsewhere may name
destinations that its operation does not follow. -/
structure Instruction where
  results : List Value
  operation : Operation
  stray : List Destination := []
deriving DecidableEq, Repr

namespace Instruction

def isTerminator (instruction : Instruction) : Bool :=
  instruction.operation.isTerminator

def destinations (instruction : Instruction) : List Destination :=
  instruction.operation.destinations ++ instruction.stray

end Instruction

/-! ## Functions -/

structure ValueInfo where
  type : MachineType
  isParameter : Bool
  block : Label
deriving DecidableEq, Repr

structure Block where
  parameters : List Value
  instructions : List Instruction
deriving DecidableEq, Repr, Inhabited

namespace Block

def empty : Block := ⟨[], []⟩

def isTerminated (block : Block) : Bool :=
  block.instructions.getLast?.any Instruction.isTerminator

def successors (block : Block) : List Label :=
  match block.instructions.getLast? with
  | some last => last.operation.destinations.map Destination.block
  | none => []

end Block

structure External where
  id : FunctionId
  name : String
  prototype : Prototype
deriving DecidableEq, Repr

/-- The body of a function. `layout` lists the blocks in the order in which they are written;
the first one is the entry. -/
structure Function where
  name : String
  prototype : Prototype
  values : Array ValueInfo
  blocks : Array Block
  layout : List Label
  slots : Array UInt32
  references : Array External
deriving DecidableEq, Repr

namespace Function

def start (name : String) (prototype : Prototype) : Function :=
  ⟨name, prototype, #[], #[], [], #[], #[]⟩

def entry? (function : Function) : Option Label :=
  function.layout.head?

@[inline]
def value? (function : Function) (value : Value) : Option ValueInfo :=
  function.values[value.index]?

/-- The type of a value, if it exists. -/
@[inline]
def type? (function : Function) (value : Value) : Option MachineType :=
  (function.value? value).map ValueInfo.type

/-- The type of a value; one that does not exist has the absent type. -/
def type (function : Function) (value : Value) : MachineType :=
  (function.type? value).getD .absent

@[inline]
def block? (function : Function) (label : Label) : Option Block :=
  function.blocks[label.index]?

/-- A block; one that does not exist is empty. -/
def block (function : Function) (label : Label) : Block :=
  (function.block? label).getD .empty

end Function

end ExprLang.Ssa
