import ExprLang.Expr
import ExprLang.Text.Quoted

/-!
# Trees as text

An expression is written as a parenthesised form: its head, what belongs to the node itself,
then its children. Nodes that are no expression are written as nothing.
-/

namespace ExprLang

def Text.form (head : String) (items : List String) : String :=
  "(" ++ String.intercalate " " (head :: items) ++ ")"

def Text.truth (value : Bool) : String :=
  if value then "true" else "false"

def Text.word (value : Int64) : String :=
  Text.signedDecimal value.toInt

namespace Expr

mutual

def render : Expr α → String
  | integer _ value => Text.form "integer" [Text.word value]
  | boolean _ value => Text.form "boolean" [Text.truth value]
  | ident _ name => Text.form "ident" [Text.quoteMarks name]
  | array _ elements => Text.form "array" (renderAll elements)
  | binary _ operator left right =>
    Text.form "binary" [Text.quoteMarks operator.symbol, left.render, right.render]
  | bind _ name value => Text.form "let" [Text.quoteMarks name, value.render]
  | sequence _ first second => Text.form "then" [first.render, second.render]
  | call _ function arguments =>
    Text.form "call" (Text.quoteMarks function :: renderAll arguments)
  | conditional _ condition onTrue onFalse =>
    Text.form "if" [condition.render, onTrue.render, onFalse.render]
  | index _ target position => Text.form "idx" [target.render, position.render]
  | length _ target => Text.form "len" [target.render]
  | each _ name bound body =>
    Text.form "each" [Text.quoteMarks name, bound.render, body.render]
  | unknown _ _ _ => ""

def renderAll : List (Expr α) → List String
  | [] => []
  | tree :: trees => tree.render :: renderAll trees

end

end Expr

class Placed (α : Type) where
  position : α → Position
  form : Expr α → String

instance : Placed Position where
  position := id
  form := Expr.render

def Parameter.render (parameter : Parameter) : String :=
  Text.form "param" [Text.quoteMarks parameter.name, Text.quoteMarks parameter.type.render]

namespace Definition

def form (name : String) (parameters : List Parameter) (body : String) : String :=
  Text.form "func"
    [Text.quoteMarks name,
     "(" ++ String.intercalate " " (parameters.map Parameter.render) ++ ")", body]

def render (definition : Definition α) : String :=
  form definition.name definition.parameters definition.body.render

def renderProgram (definitions : List (Definition α)) : String :=
  Text.form "program" (definitions.map render)

end Definition

end ExprLang
