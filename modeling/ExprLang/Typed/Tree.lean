import ExprLang.Expr.Node

/-!
# Typed trees

Trees in which every node notes its position and its type, and the definitions made of them.
-/

namespace ExprLang

structure Typing where
  position : Position
  type : Ty
deriving DecidableEq, Repr, Inhabited

structure TypedParameter where
  name : String
  type : Ty
deriving DecidableEq, Repr

/-- A definition whose body has been checked, and what all nodes are annotated with. -/
structure TypedDefinition where
  name : String
  parameters : List TypedParameter
  signature : Signature
  body : Expr Typing
  position : Position
  typings : List Typing := body.notes
deriving Repr

namespace TypedDefinition

def ofExpression (name : String) (body : Expr Typing) : TypedDefinition where
  name
  parameters := []
  signature := ⟨[], body.note.type⟩
  body
  position := body.note.position

/-- A definition that was checked elsewhere. The annotations of children for which their node
has no use are kept. -/
def ofNode (name : String) (parameters : List TypedParameter) (result : Ty) (body : Node Typing)
    (position : Position) : TypedDefinition where
  name
  parameters
  signature := ⟨parameters.map TypedParameter.type, result⟩
  body := body.toExpr.map Node.note
  position
  typings := body.notes

end TypedDefinition

namespace Expr

def type (tree : Expr Typing) : Ty :=
  tree.note.type

def position (tree : Expr Typing) : Position :=
  tree.note.position

def erase (tree : Expr Typing) : Expr Position :=
  tree.map Typing.position

mutual

/-- A typed tree as a form; the type of a node is its last item. -/
def renderTyped : Expr Typing → String
  | integer note value => Text.form "integer" [Text.word value, note.type.render]
  | boolean note value => Text.form "boolean" [Text.truth value, note.type.render]
  | ident note name => Text.form "ident" [Text.quote name, note.type.render]
  | array note elements => Text.form "array" (renderTypedAll elements ++ [note.type.render])
  | binary note operator left right =>
    Text.form "binary"
      [Text.quote operator.symbol, left.renderTyped, right.renderTyped, note.type.render]
  | bind note name value =>
    Text.form "let" [Text.quote name, value.renderTyped, note.type.render]
  | sequence note first second =>
    Text.form "then" [first.renderTyped, second.renderTyped, note.type.render]
  | call note function arguments =>
    Text.form "call" (Text.quote function :: renderTypedAll arguments ++ [note.type.render])
  | conditional note condition onTrue onFalse =>
    Text.form "if"
      [condition.renderTyped, onTrue.renderTyped, onFalse.renderTyped, note.type.render]
  | index note target position =>
    Text.form "idx" [target.renderTyped, position.renderTyped, note.type.render]
  | length note target => Text.form "len" [target.renderTyped, note.type.render]
  | each note name bound body =>
    Text.form "each"
      [Text.quote name, bound.renderTyped, body.renderTyped, note.type.render]
  | unknown note _ children =>
    Text.form "" (renderTypedAll children ++ [note.type.render])

def renderTypedAll : List (Expr Typing) → List String
  | [] => []
  | tree :: trees => tree.renderTyped :: renderTypedAll trees

end

end Expr

end ExprLang
