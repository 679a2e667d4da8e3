import ExprLang.Expr.Printer
import ExprLang.Ssa.Machine
import ExprLang.Text.Bytes

/-!
# The console

The standard functions for programs that run on the machine. Printing functions add to the
output and give back their argument; reading passes over white space and gives minus one once
nothing is left.
-/

namespace ExprLang

/-- What has been printed so far and what can still be read. There may be no input at all. -/
structure Console where
  input : Option Bytes
  output : Array UInt8
deriving DecidableEq, Repr

namespace Console

def start (input : Option Bytes) : Console := ⟨input, #[]⟩

/-- Whether reading passes over an octet: a blank or one of the five controls from tab to
carriage return. -/
def isPassedOver (byte : UInt8) : Bool :=
  byte == 32 || (9 ≤ byte && byte ≤ 13)

def write (console : Console) (text : Bytes) : Console :=
  { console with output := text.foldl Array.push console.output }

def printer (format : Int64 → Bytes) : Ssa.HostFunction Console
  | [word], console => (.ok [word], console.write (format word))
  | arguments, console =>
    (.error ("expected 1 argument, got " ++ Text.decimal arguments.length), console)

/-- The function that reads an octet. It ignores its arguments. -/
def reader : Ssa.HostFunction Console
  | _, console =>
    match console.input with
    | none => (.ok [-1], console)
    | some bytes =>
      match bytes.dropWhile isPassedOver with
      | [] => (.ok [-1], { console with input := some [] })
      | byte :: rest => (.ok [Int64.ofNat byte.toNat], { console with input := some rest })

def numeral (word : Int64) : Bytes :=
  Bytes.ofString (Text.word word)

def octet (word : Int64) : UInt8 :=
  word.toUInt64.toUInt8

def host : Ssa.Host Console
  | "printint" => some (printer numeral)
  | "printintln" => some (printer fun word => numeral word ++ [Bytes.newline])
  | "printchar" => some (printer fun word => [octet word])
  | "printcharln" => some (printer fun word => [octet word, Bytes.newline])
  | "readchar" => some reader
  | _ => none

end Console

end ExprLang
