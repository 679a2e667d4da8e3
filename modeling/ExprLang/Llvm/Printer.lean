import ExprLang.Llvm.Basic
import ExprLang.Ssa.Printer
import ExprLang.Text.Bytes

/-!
# Modules of the LLVM language as text

Results without a name of their own are numbered in the order in which they are written.
Numerals are decimal unless the hexadecimal form of a large number has clearly less variety.
-/

namespace ExprLang.Llvm

/-! ## Quoting -/

def isPlain (byte : UInt8) : Bool :=
  32 ≤ byte && byte ≤ 126 && byte != 34 && byte != 92

def capitalHexadecimal (byte : UInt8) : String :=
  (Text.paddedHexadecimal 2 byte.toNat).map Char.toUpper

def escape (text : String) : String :=
  String.join ((Bytes.ofString text).map fun byte =>
    if isPlain byte then String.singleton (Char.ofNat byte.toNat)
    else "\\" ++ capitalHexadecimal byte)

def quote (text : String) : String :=
  "\"" ++ escape text ++ "\""

def isNameChar (c : Char) : Bool :=
  c.isAlphanum || c == '$' || c == '-' || c == '.' || c == '_'

def isNumber (name : String) : Bool :=
  name.toList.all Char.isDigit && Text.numberOfDigits name.toList < 0x10000000000000000

/-- The name of a function as text. A function without a name has the number zero. -/
def renderGlobal (name : String) : String :=
  if name == "" then "@0"
  else if name.toList.all isNameChar && !isNumber name then "@" ++ name
  else "@" ++ quote name

/-! ## Numerals -/

def differentDigits (base number : Nat) : Nat :=
  (Text.digits base number).eraseDups.length

/-- The share of different digits among the digits of a numeral; a long numeral is counted as
having as many digits as there are digits to choose from. -/
def variety (base number : Nat) : Float :=
  Float.ofNat (differentDigits base number) /
    Float.ofNat (min (Text.digits base number).length base)

/-- How many different digits a hexadecimal numeral of some length may have to be preferred. Their
share of the length falls evenly from a half at four digits to a quarter at sixteen. -/
def differentDigitsAllowed (length : Nat) : Nat :=
  if length < 7 then 2 else if length < 11 then 3 else 4

/-- Whether the hexadecimal numeral has few different digits, and less variety than the decimal
one by at least a fifth. -/
def isSimplerInHexadecimal (number : Nat) : Bool :=
  differentDigits 16 number ≤ differentDigitsAllowed (Text.digits 16 number).length &&
    variety 16 number + 0.2 ≤ variety 10 number

/-- A word as a numeral. Numbers below 4096 are always decimal. -/
def renderWord (value : Int64) : String :=
  if 4096 ≤ value && isSimplerInHexadecimal value.toNatClampNeg then
    "u0x" ++ String.ofList ((Text.digits 16 value.toNatClampNeg).map Char.toUpper)
  else Text.word value

/-! ## Operands -/

def Width.render : Width → String
  | bit => "i1"
  | word => "i64"

def Function.numbered (function : Function) : List Name :=
  function.blocks.flatMap fun block =>
    block.assignments.filterMap fun assignment =>
      assignment.name.filter fun name => !name.isGiven

def Name.render (numbered : List Name) : Name → String
  | value number => "%" ++ number.render
  | name => "%" ++ Text.decimal (numbered.idxOf name)

def Operand.render (numbered : List Name) : Operand → String
  | constant .bit value => Text.truth (value != 0)
  | constant .word value => renderWord value
  | result name _ => name.render numbered

def Operand.renderTyped (numbered : List Name) (operand : Operand) : String :=
  operand.width.render ++ " " ++ operand.render numbered

def renderTarget (label : Ssa.Label) : String :=
  "%" ++ label.render

/-! ## Instructions -/

def mnemonic : Arithmetic → String
  | .add => "add"
  | .subtract => "sub"
  | .multiply => "mul"
  | .divide => "sdiv"

/-- A condition as text. One without a meaning is written as equality. -/
def renderCondition : Ssa.Condition → String
  | .other _ => Ssa.Condition.equal.render
  | condition => condition.render

def renderArray (words : Nat) : String :=
  "[" ++ Text.decimal words ++ " x i64]"

def Instruction.render (numbered : List Name) : Instruction → String
  | allocate words => "alloca " ++ renderArray words
  | slotAddress slot words =>
    "ptrtoint " ++ renderArray words ++ "* " ++ (Name.slot slot).render numbered ++ " to i64"
  | pointer address => "inttoptr " ++ address.renderTyped numbered ++ " to i64*"
  | arithmetic operation left right =>
    mnemonic operation ++ " " ++ left.renderTyped numbered ++ ", " ++ right.render numbered
  | compare condition left right =>
    "icmp " ++ renderCondition condition ++ " " ++ left.renderTyped numbered ++ ", " ++
      right.render numbered
  | signExtend operand width =>
    "sext " ++ operand.renderTyped numbered ++ " to " ++ width.render
  | load width place => "load " ++ width.render ++ ", i64* " ++ place.render numbered
  | store value place =>
    "store " ++ value.renderTyped numbered ++ ", i64* " ++ place.render numbered
  | call width function arguments =>
    "call " ++ width.render ++ " " ++ renderGlobal function ++ "(" ++
      String.intercalate ", " (arguments.map (Operand.renderTyped numbered)) ++ ")"

def Assignment.render (numbered : List Name) (assignment : Assignment) : String :=
  match assignment.name with
  | some name => name.render numbered ++ " = " ++ assignment.instruction.render numbered
  | none => assignment.instruction.render numbered

def Phi.render (numbered : List Name) (phi : Phi) : String :=
  "%" ++ phi.value.render ++ " = phi " ++ phi.width.render ++ " " ++
    String.intercalate ", " (phi.incoming.map fun (operand, label) =>
      "[ " ++ operand.render numbered ++ ", " ++ renderTarget label ++ " ]")

def Terminator.render (numbered : List Name) : Terminator → String
  | branch condition onTrue onFalse =>
    "br " ++ condition.renderTyped numbered ++ ", label " ++ renderTarget onTrue ++
      ", label " ++ renderTarget onFalse
  | jump target => "br label " ++ renderTarget target
  | ret value => "ret " ++ value.renderTyped numbered

/-! ## Functions and modules -/

def Block.render (numbered : List Name) (block : Block) : String :=
  let lines := block.phis.map (Phi.render numbered) ++
    block.assignments.map (Assignment.render numbered) ++
    block.terminator.toList.map (Terminator.render numbered)
  block.label.render ++ ":\n" ++ String.join (lines.map fun line => "\t" ++ line ++ "\n")

/-- Parameters as text; one without a name is written with its number. -/
def renderParameters (parameters : List Parameter) : String :=
  String.intercalate ", " (parameters.zipIdx.map fun (parameter, index) =>
    parameter.width.render ++ " %" ++
      match parameter.value with
      | some value => value.render
      | none => Text.decimal index)

def Function.render (function : Function) : String :=
  let heading := function.width.render ++ " " ++ renderGlobal function.name ++ "(" ++
    renderParameters function.parameters ++ ")"
  if function.blocks.isEmpty then "declare " ++ heading ++ "\n"
  else
    "define " ++ (if function.isInternal then "internal " else "") ++ heading ++ " \x7b\n" ++
      String.intercalate "\n" (function.blocks.map (Block.render function.numbered)) ++ "\x7d\n"

/-- A line of the heading of a module, which is left out if there is nothing to say. -/
def renderSetting (name value : String) : String :=
  if value == "" then "" else name ++ " = " ++ quote value ++ "\n"

def Module.render (module : Module) : String :=
  let heading := renderSetting "source_filename" module.name ++
    renderSetting "target triple" module.triple
  let functions := String.intercalate "\n" (module.functions.map Function.render)
  if heading == "" || module.functions.isEmpty then heading ++ functions
  else heading ++ "\n" ++ functions

end ExprLang.Llvm
