import ExprLang.Text.Bytes
import ExprLang.Text.Decimal
import ExprLang.Yaml

/-!
# Values of scalars

What a scalar stands for. Where nothing but the text of a scalar tells it, a fixed list of
words and the forms of numbers and timestamps decide; everything else is a text. A scalar with
a tag has to be of the kind that its tag says.
-/

/-!
## Timestamps

A timestamp is a date, or a date with a time of day. A date has a year of four digits; month,
day and the parts of the time have one or two. A time that follows a letter needs a time zone,
and one that follows blanks has none.
-/

namespace ExprLang.Yaml.Timestamp

def number? : List Char → Option (Nat × List Char)
  | first :: second :: rest =>
    if first.isDigit then
      if second.isDigit then some (Text.numberOfDigits [first, second], rest)
      else some (Text.numberOfDigits [first], second :: rest)
    else none
  | [first] => if first.isDigit then some (Text.numberOfDigits [first], []) else none
  | [] => none

def after? (wanted : Char) : List Char → Option (List Char)
  | c :: rest => if c == wanted then some rest else none
  | [] => none

def isLeap (year : Nat) : Bool :=
  year % 4 == 0 && (year % 100 != 0 || year % 400 == 0)

def daysIn (year month : Nat) : Nat :=
  if month == 2 then if isLeap year then 29 else 28
  else if [4, 6, 9, 11].contains month then 30
  else 31

def afterDate? (text : List Char) : Option (List Char) := do
  let year := text.take 4
  if year.length = 4 && year.all Char.isDigit then
    let (month, rest) ← number? (← after? '-' (text.drop 4))
    let (day, rest) ← number? (← after? '-' rest)
    if 1 ≤ month && month ≤ 12 && 1 ≤ day &&
        day ≤ daysIn (Text.numberOfDigits year) month then some rest
    else none
  else none

/-- What stands behind the fraction of a second, if there is one. -/
def afterFraction : List Char → List Char
  | mark :: digit :: rest =>
    if (mark == '.' || mark == ',') && digit.isDigit then rest.dropWhile Char.isDigit
    else mark :: digit :: rest
  | rest => rest

def afterTime? (text : List Char) : Option (List Char) := do
  let (hour, rest) ← number? text
  let (minute, rest) ← number? (← after? ':' rest)
  let (second, rest) ← number? (← after? ':' rest)
  if hour < 24 && minute < 60 && second < 60 then some (afterFraction rest) else none

/-- Whether a text is a time zone: the letter Z, or hours and minutes with a sign. -/
def isZone : List Char → Bool
  | ['Z'] => true
  | [sign, a, b, ':', c, d] =>
    (sign == '+' || sign == '-') && [a, b, c, d].all Char.isDigit &&
      Text.numberOfDigits [a, b] ≤ 24 && Text.numberOfDigits [c, d] ≤ 60
  | _ => false

def isRemainder (text : List Char) : Bool :=
  match text with
  | [] => true
  | mark :: rest =>
    if mark == 'T' || mark == 't' then (afterTime? rest).any isZone
    else mark == ' ' && (afterTime? (rest.dropWhile (· == ' '))).any List.isEmpty

end Timestamp

def isTimestamp (text : List Char) : Bool :=
  (Timestamp.afterDate? text).any Timestamp.isRemainder

end ExprLang.Yaml

/-! ## Values -/

namespace ExprLang.Yaml

inductive Value where
  | null
  | truth (value : Bool)
  | integer
  | fraction
  | time
  | text (text : String)
deriving DecidableEq, Repr

def Value.tag : Value → Tag
  | null => .null
  | truth _ => .bool
  | integer => .int
  | fraction => .float
  | time => .timestamp
  | text _ => .string

/-! ## Numbers -/

def unsigned : List Char → List Char
  | '+' :: digits | '-' :: digits => digits
  | digits => digits

/-- The value of a digit in a base, if it is one. -/
def digitValue? (base : Nat) (c : Char) : Option Nat :=
  let value :=
    if c.isDigit then c.toNat - 48
    else if 'a' ≤ c ∧ c ≤ 'f' then c.toNat - 87
    else if 'A' ≤ c ∧ c ≤ 'F' then c.toNat - 55
    else base
  if value < base then some value else none

def numeralValue? (base : Nat) : List Char → Option Nat
  | [] => none
  | digits => digits.foldlM (fun value c => (digitValue? base c).map (base * value + ·)) 0

/-- The value of an integer without sign. Its first characters tell the base. -/
def integerValue? : List Char → Option Nat
  | '0' :: 'x' :: digits | '0' :: 'X' :: digits => numeralValue? 16 digits
  | '0' :: 'o' :: digits | '0' :: 'O' :: digits => numeralValue? 8 digits
  | '0' :: 'b' :: digits | '0' :: 'B' :: digits => numeralValue? 2 digits
  | '0' :: digit :: digits => numeralValue? 8 (digit :: digits)
  | digits => numeralValue? 10 digits

def fitsWord (text : List Char) (value : Nat) : Bool :=
  if text.head? == some '-' then value ≤ 0x8000000000000000
  else if text.head? == some '+' then value < 0x8000000000000000
  else value < 0x10000000000000000

/-- Whether a text is an integer that fits into sixty-four bits. In base two and eight the sign
may also stand behind the mark of the base. -/
def isInteger (text : List Char) : Bool :=
  (integerValue? (unsigned text)).any (fitsWord text) ||
    match text with
    | '0' :: 'b' :: digits => (numeralValue? 2 (unsigned digits)).any (fitsWord digits)
    | '0' :: 'o' :: digits => (numeralValue? 8 (unsigned digits)).any (fitsWord digits)
    | _ => false

/-- The parts of a decimal fraction: its digits without the point, the number of those behind
the point, and its exponent. -/
structure Fraction where
  digits : List Char
  places : Nat
  exponent : Int

namespace Fraction

/-- The exponent that a text is, or zero if it is empty. -/
def exponent? : List Char → Option Int
  | [] => some 0
  | mark :: rest =>
    let digits := unsigned rest
    if (mark == 'e' || mark == 'E') && !digits.isEmpty && digits.all Char.isDigit then
      let value := Text.numberOfDigits digits
      some (if rest.head? == some '-' then -(Int.ofNat value) else Int.ofNat value)
    else none

def ofText? (text : List Char) : Option Fraction := do
  let number := unsigned text
  let whole := number.takeWhile Char.isDigit
  match number.dropWhile Char.isDigit with
  | '.' :: rest =>
    let places := rest.takeWhile Char.isDigit
    if whole.isEmpty && places.isEmpty then none
    else
      some ⟨whole ++ places, places.length, ← exponent? (rest.dropWhile Char.isDigit)⟩
  | rest => if whole.isEmpty then none else some ⟨whole, 0, ← exponent? rest⟩

/-- The largest double with half a unit of its last place added. What is at least this much
rounds to no double. -/
def limit : Nat :=
  0x1fffffffffffff * Nat.pow 2 971 + Nat.pow 2 970

def isFinite (fraction : Fraction) : Bool :=
  let digits := fraction.digits.dropWhile (· == '0')
  let scale := fraction.exponent - Int.ofNat fraction.places
  let size := Int.ofNat digits.length + scale
  if digits.isEmpty || size ≤ 308 then true
  else if 310 < size then false
  else
    let value := Text.numberOfDigits digits
    if 0 ≤ scale then value * Nat.pow 10 scale.toNat < limit
    else value < limit * Nat.pow 10 (-scale).toNat

end Fraction

def isFraction (text : List Char) : Bool :=
  (Fraction.ofText? text).any Fraction.isFinite

def hasGoodSeparators : (afterDigit : Bool) → List Char → Bool
  | _, [] => true
  | afterDigit, '_' :: rest =>
    afterDigit && rest.head?.any Char.isDigit && hasGoodSeparators false rest
  | _, c :: rest => hasGoodSeparators c.isDigit rest

/-! ## Plain scalars -/

def words : List (String × Value) :=
  [("", .null), ("~", .null), ("null", .null), ("Null", .null), ("NULL", .null),
   ("true", .truth true), ("True", .truth true), ("TRUE", .truth true),
   ("false", .truth false), ("False", .truth false), ("FALSE", .truth false),
   (".nan", .fraction), (".NaN", .fraction), (".NAN", .fraction),
   (".inf", .fraction), (".Inf", .fraction), (".INF", .fraction),
   ("+.inf", .fraction), ("+.Inf", .fraction), ("+.INF", .fraction),
   ("-.inf", .fraction), ("-.Inf", .fraction), ("-.INF", .fraction)]

def Value.ofNumber? (digits : List Char) : Option Value :=
  if isInteger digits then some .integer
  else if isFraction digits then some .fraction
  else none

/-- The value that a text has by itself. It is looked for among timestamps only where that is
asked for. -/
def Value.ofText (mayBeTime : Bool) (content : String) : Value :=
  let characters := content.toList
  let plain := characters.filter (· != '_')
  match words.lookup content, characters with
  | some value, _ => value
  | none, '.' :: _ =>
    if hasGoodSeparators false characters && isFraction plain then .fraction else .text content
  | none, first :: _ =>
    if first.isDigit || first == '+' || first == '-' then
      if mayBeTime && isTimestamp characters then .time
      else (Value.ofNumber? plain).getD (.text content)
    else .text content
  | none, [] => .text content

def Tag.ofPlain (content : String) : Tag :=
  if content == "<<" then merge else (Value.ofText true content).tag

/-! ## Binary data -/

def sextet? (c : Char) : Option Nat :=
  if 'A' ≤ c ∧ c ≤ 'Z' then some (c.toNat - 65)
  else if 'a' ≤ c ∧ c ≤ 'z' then some (c.toNat - 71)
  else if c.isDigit then some (c.toNat + 4)
  else if c == '+' then some 62
  else if c == '/' then some 63
  else none

/-- The octets that a text in base sixty-four stands for. Groups of four digits stand for three
octets; the last group may be filled up with equality signs. -/
def octets? : List Char → Option Bytes
  | [] => some []
  | [a, b, '=', '='] => do
    let value := 64 * (← sextet? a) + (← sextet? b)
    return [UInt8.ofNat (value / 16)]
  | [a, b, c, '='] => do
    let value := 4096 * (← sextet? a) + 64 * (← sextet? b) + (← sextet? c)
    return [UInt8.ofNat (value / 1024), UInt8.ofNat (value / 4 % 256)]
  | a :: b :: c :: d :: rest => do
    let value :=
      262144 * (← sextet? a) + 4096 * (← sextet? b) + 64 * (← sextet? c) + (← sextet? d)
    let others ← octets? rest
    return UInt8.ofNat (value / 65536) :: UInt8.ofNat (value / 256 % 256) ::
      UInt8.ofNat (value % 256) :: others
  | _ => none

/-! ## Tagged scalars -/

inductive ValueError where
  | wrongKind (found : Tag) (text : String) (wanted : Tag)
  | badBinary
deriving DecidableEq, Repr

def ValueError.message : ValueError → String
  | wrongKind found text wanted =>
    "cannot decode " ++ found.render ++ " `" ++ text ++ "` as a " ++ wanted.render
  | badBinary => "!!binary value contains invalid base64 data"

/-- The value of a scalar. Tags without a meaning of their own go with any text, and an integer
is also a fraction. -/
def Value.ofScalar (tag : Tag) (content : String) : Except ValueError Value :=
  match tag with
  | .null | .bool | .int | .float | .timestamp =>
    let value := Value.ofText (tag = .timestamp) content
    if value.tag = tag then .ok value
    else if tag = .float ∧ value = .integer then .ok .fraction
    else .error (.wrongKind value.tag content tag)
  | .binary =>
    match octets? (content.toList.filter fun c => c != '\n' && c != '\r') with
    | some bytes => .ok (.text ((Bytes.toString? bytes).getD bytes.latin))
    | none => .error .badBinary
  | .string | .merge | .sequence | .mapping | .other _ => .ok (.text content)

end ExprLang.Yaml
