import ExprLang.Datum.Token

/-!
# Reading data

Tokens are put together one after the other; the brackets that are still open, with the items
read inside them, form a stack. A text has to hold exactly one datum.
-/

namespace ExprLang

inductive DatumError where
  | lexical (error : Datum.LexicalError)
  | unexpected (token : String)
  | unclosed (bracket : Datum.Bracket)
  | trailing (token : String)
deriving DecidableEq, Repr

def DatumError.message : DatumError → String
  | lexical error => error.message
  | unexpected token => "unexpected token: " ++ token
  | unclosed bracket => "expected " ++ (Datum.Token.closing bracket).name ++ " but got EOF"
  | trailing token => "expected EOF but got " ++ token

namespace Datum

/-- An open bracket with the items behind it, last one first. -/
structure Opened where
  bracket : Bracket
  items : List Datum

def conclude (datum : Datum) : List Token → Except DatumError Datum
  | [] => .ok datum
  | .bad error :: _ => .error (.lexical error)
  | token :: _ => .error (.trailing token.name)

/-- Reads a datum inside open brackets, innermost first. -/
def assemble : List Opened → List Token → Except DatumError Datum
  | [], [] => .error (.unexpected "EOF")
  | opened :: _, [] => .error (.unclosed opened.bracket)
  | _, .bad error :: _ => .error (.lexical error)
  | stack, .opening bracket :: rest => assemble (⟨bracket, []⟩ :: stack) rest
  | [], .atom datum :: rest => conclude datum rest
  | opened :: outer, .atom datum :: rest =>
    assemble ({ opened with items := datum :: opened.items } :: outer) rest
  | [], .closing bracket :: _ => .error (.unexpected (Token.closing bracket).name)
  | opened :: outer, .closing bracket :: rest =>
    if opened.bracket = bracket then
      let datum := bracket.wrap opened.items.reverse
      match outer with
      | [] => conclude datum rest
      | next :: outer => assemble ({ next with items := datum :: next.items } :: outer) rest
    else .error (.unexpected (Token.closing bracket).name)

def parse (text : Bytes) : Except DatumError Datum :=
  assemble [] (Token.ofText text)

end Datum

end ExprLang
