import ExprLang.Text.Decimal

/-!
# Positions in a source text
-/

namespace ExprLang

/-- A place in a source text: a line and a column, both counted from one, the column in
octets. The zero position stands for an unknown place; trees from elsewhere may claim to stand
at any numbers. -/
structure Position where
  line : Int
  column : Int
deriving DecidableEq, Repr, Inhabited

namespace Position

def unknown : Position := ⟨0, 0⟩

def start : Position := ⟨1, 1⟩

def after (position : Position) (byte : UInt8) : Position :=
  if byte == 10 then ⟨position.line + 1, 1⟩ else ⟨position.line, position.column + 1⟩

def afterAll (position : Position) (bytes : List UInt8) : Position :=
  bytes.foldl after position

def render (position : Position) : String :=
  Text.signedDecimal position.line ++ ":" ++ Text.signedDecimal position.column

end Position

end ExprLang
