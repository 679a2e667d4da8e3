import ExprLang.Text.Bytes
import ExprLang.Text.Decimal

/-!
# Data

A datum is a symbol, a string, a numeral, or a list or array of data. Data are compared with
what the compiler produces; in such a pattern an ellipsis stands for anything. A datum is
written with one blank between items.
-/

namespace ExprLang

/-- A datum. Texts are octets; a numeral keeps its spelling. -/
inductive Datum where
  | symbol (text : Bytes)
  | string (text : Bytes)
  | integer (text : Bytes)
  | ellipsis
  | list (items : List Datum)
  | array (items : List Datum)
deriving Repr

namespace Datum

instance : Inhabited Datum := ⟨ellipsis⟩

/-- What kind of datum it is. Kinds are numbered; a number without a kind is kept. -/
inductive Kind where
  | symbol
  | string
  | integer
  | ellipsis
  | list
  | array
  | unlisted (number : Int)
deriving DecidableEq, Repr

namespace Kind

def listed : List Kind :=
  [symbol, string, integer, ellipsis, list, array]

def ofNumber (number : Int) : Kind :=
  if 0 ≤ number then listed.getD number.toNat (unlisted number) else unlisted number

def name : Kind → String
  | symbol => "symbol"
  | string => "string"
  | integer => "integer"
  | ellipsis => "ellipsis"
  | list => "list"
  | array => "array"
  | unlisted number => "NodeType(" ++ Text.signedDecimal number ++ ")"

def isAtom : Kind → Bool
  | symbol | string | integer | ellipsis => true
  | list | array | unlisted _ => false

def escape (text : Bytes) : Bytes :=
  text.flatMap fun byte => if byte == 34 || byte == 92 then [92, byte] else [byte]

def spaced (items : List Bytes) : Bytes :=
  List.intercalate [32] items

def write (kind : Kind) (text : Bytes) (items : List Bytes) : Bytes :=
  match kind with
  | symbol | integer => text
  | string => [34] ++ escape text ++ [34]
  | ellipsis => Bytes.ofString "..."
  | list => [40] ++ spaced items ++ [41]
  | array => [91] ++ spaced items ++ [93]
  | unlisted number => Bytes.ofString ("UNKNOWN_NODE_TYPE_" ++ Text.signedDecimal number)

end Kind

def kind : Datum → Kind
  | symbol _ => .symbol
  | string _ => .string
  | integer _ => .integer
  | ellipsis => .ellipsis
  | list _ => .list
  | array _ => .array

/-- The text of a datum; only symbols, strings and numerals have one. -/
def text : Datum → Bytes
  | symbol text | string text | integer text => text
  | ellipsis | list _ | array _ => []

/-- The items of a datum; only lists and arrays have any. -/
def items : Datum → List Datum
  | list items | array items => items
  | symbol _ | string _ | integer _ | ellipsis => []

def isEllipsis : Datum → Bool
  | ellipsis => true
  | _ => false

mutual

def render : Datum → Bytes
  | symbol text => Kind.symbol.write text []
  | string text => Kind.string.write text []
  | integer text => Kind.integer.write text []
  | ellipsis => Kind.ellipsis.write [] []
  | list items => Kind.list.write [] (renderAll items)
  | array items => Kind.array.write [] (renderAll items)

def renderAll : List Datum → List Bytes
  | [] => []
  | item :: items => item.render :: renderAll items

end

end Datum

end ExprLang
