import ExprLang.Text.Blank
import ExprLang.Text.Quoted
import ExprLang.Token
import ExprLang.Ty

/-!
# Syntax errors

What can be wrong with a source text. An error is *at the end* if the text stops where
something else was needed, so that more text could mend it.
-/

namespace ExprLang

/-!
## Reading type names

The inverse of `Ty.render`. White space may stand around a name and around the element type
inside the angle brackets.
-/

structure UnknownType where
  name : String
deriving DecidableEq, Repr

def UnknownType.message (failure : UnknownType) : String :=
  "unknown type " ++ Text.quote failure.name

namespace Ty

def arrayOpening : List Char := ['A', 'r', 'r', 'a', 'y', '<']

def elementName? (name : List Char) : Option (List Char) :=
  if arrayOpening.isPrefixOf name && name.getLast? == some '>' then
    some (name.drop arrayOpening.length).dropLast
  else none

theorem length_lt_of_elementName? {name inner : List Char}
    (found : elementName? name = some inner) : inner.length < name.length := by
  unfold elementName? at found
  split at found
  · rename_i shape
    cases found
    cases name with
    | nil => simp at shape
    | cons => simp [arrayOpening]; omega
  · cases found

/-- Reads a type name. A failure names the innermost text that is no type, with its white
space. -/
def read (name : List Char) : Except UnknownType Ty :=
  let text := Text.trimChars name
  if text = ['I', 'n', 't'] then .ok int
  else if text = ['F', 'l', 'o', 'a', 't'] then .ok float
  else if text = ['B', 'o', 'o', 'l'] then .ok bool
  else
    match _inside : elementName? text with
    | some inner => (read inner).map array
    | none => .error ⟨String.ofList name⟩
termination_by name.length
decreasing_by
  exact Nat.lt_of_lt_of_le (length_lt_of_elementName? _inside) (Text.trimChars_length_le name)

def parse (name : String) : Except UnknownType Ty :=
  read name.toList

end Ty

/-! ## Errors -/

namespace SyntaxError

inductive Cause where
  | unexpectedCharacter (byte : UInt8)
  | integerTooLarge (numeral : String)
  | expected (what : String) (found : Lexeme)
  | unexpected (found : Lexeme)
  | emptyBlock
  | unknownType (failure : UnknownType)
deriving DecidableEq, Repr

end SyntaxError

structure SyntaxError where
  position : Position
  cause : SyntaxError.Cause
deriving DecidableEq, Repr

def Lexeme.describe : Lexeme → String
  | .endOfInput => "end of input"
  | .identifier name => "identifier " ++ Text.quoteMarks name
  | .integer numeral _ => "integer " ++ numeral
  | lexeme => "'" ++ lexeme.text ++ "'"

namespace SyntaxError

def Cause.message : Cause → String
  | unexpectedCharacter byte => "unexpected character '" ++ Bytes.latin [byte] ++ "'"
  | integerTooLarge numeral => "integer literal " ++ numeral ++ " is too large"
  | expected what found => "expected " ++ what ++ " but got " ++ found.describe
  | unexpected found => "unexpected " ++ found.describe
  | emptyBlock => "empty block"
  | unknownType failure => failure.message

def message (error : SyntaxError) : String :=
  "syntax error at " ++ error.position.render ++ ": " ++ error.cause.message

def isAtEnd (error : SyntaxError) : Bool :=
  match error.cause with
  | .expected _ .endOfInput => true
  | .unexpected .endOfInput => true
  | _ => false

end SyntaxError

def Token.error? (token : Token) : Option SyntaxError :=
  match token.lexeme with
  | .illegal byte => some ⟨token.position, .unexpectedCharacter byte⟩
  | .integer numeral none => some ⟨token.position, .integerTooLarge numeral⟩
  | _ => none

structure SyntaxErrors where
  first : SyntaxError
  later : List SyntaxError
deriving DecidableEq, Repr

namespace SyntaxErrors

def toList (errors : SyntaxErrors) : List SyntaxError :=
  errors.first :: errors.later

end SyntaxErrors

end ExprLang
