/-!
# Numbers as text

Decimal and hexadecimal numerals. A numeral has no leading zero, and a minus sign stands
before the numeral of a negative number.
-/

namespace ExprLang.Text

def digit (value : Nat) : Char :=
  if value < 10 then Char.ofNat (48 + value) else Char.ofNat (87 + value)

/-- The digits of a number in a base of at least two, most significant first. -/
def digits (base : Nat) (value : Nat) : List Char :=
  if value < base ∨ base < 2 then [digit value]
  else digits base (value / base) ++ [digit (value % base)]
termination_by value
decreasing_by exact Nat.div_lt_self (by omega) (by omega)

def decimal (value : Nat) : String :=
  String.ofList (digits 10 value)

def numberOfDigits (digits : List Char) : Nat :=
  digits.foldl (fun value digit => 10 * value + (digit.toNat - 48)) 0

def signedDecimal : Int → String
  | .ofNat value => decimal value
  | .negSucc value => "-" ++ decimal (value + 1)

def offsetDecimal (value : Int) : String :=
  if value < 0 then signedDecimal value else "+" ++ signedDecimal value

def signedHexadecimal : Int → String
  | .ofNat value => "0x" ++ String.ofList (digits 16 value)
  | .negSucc value => "-0x" ++ String.ofList (digits 16 (value + 1))

def paddedHexadecimal (width value : Nat) : String :=
  let numeral := digits 16 value
  String.ofList (List.replicate (width - numeral.length) '0' ++ numeral)

end ExprLang.Text
