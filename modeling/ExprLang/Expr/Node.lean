import ExprLang.Expr.Printer

/-!
# Trees from outside

The loose form in which other tools hand in a tree: a node has a kind, all the data that any
kind can have, and any number of children, some of which may be missing. `Node.render` writes
every such tree; `Node.toExpr` finds the expression that a tree stands for, which takes no
notice of children that its kind has no use for.
-/

namespace ExprLang

namespace Node

inductive Kind where
  | integer
  | boolean
  | array
  | ident
  | binary
  | bind
  | sequence
  | call
  | conditional
  | index
  | length
  | each
  | unknown (name : String)
deriving DecidableEq, Repr

def Kind.head : Kind → String
  | integer => "integer"
  | boolean => "boolean"
  | array => "array"
  | ident => "ident"
  | binary => "binary"
  | bind => "let"
  | sequence => "then"
  | call => "call"
  | conditional => "if"
  | index => "idx"
  | length => "len"
  | each => "each"
  | unknown _ => ""

structure Content (α : Type) where
  kind : Kind
  note : α
  name : String
  integer : Int64
  truth : Bool
  operator : String
deriving Repr

end Node

inductive Node (α : Type) where
  | missing
  | node (content : Node.Content α) (children : List (Node α))
deriving Repr

namespace Node

instance : Inhabited (Node α) := ⟨missing⟩

def Content.attributes (content : Content α) : List String :=
  match content.kind with
  | .integer => [Text.word content.integer]
  | .boolean => [Text.truth content.truth]
  | .ident | .bind | .call | .each => [Text.quoteMarks content.name]
  | .binary => [Text.quoteMarks content.operator]
  | _ => []

mutual

def render : Node α → String
  | missing => "()"
  | node content children =>
    match content.kind with
    | .unknown _ => ""
    | .integer | .boolean | .ident => Text.form content.kind.head content.attributes
    | kind => Text.form kind.head (content.attributes ++ renderAll children)

def renderAll : List (Node α) → List String
  | [] => []
  | tree :: trees => tree.render :: renderAll trees

end

/-- The note of a node; a missing one has a note without meaning. -/
def note [Inhabited α] : Node α → α
  | missing => default
  | node content _ => content.note

mutual

def notes : Node α → List α
  | missing => []
  | node content children => content.note :: notesAll children

def notesAll : List (Node α) → List α
  | [] => []
  | tree :: trees => tree.notes ++ notesAll trees

end

/-! ## Definitions -/

structure Definition (α : Type) where
  name : String
  parameters : List Parameter
  body : Node α
deriving Repr

def Definition.render (definition : Definition α) : String :=
  ExprLang.Definition.form definition.name definition.parameters definition.body.render

def Definition.renderProgram (definitions : List (Definition α)) : String :=
  Text.form "program" (definitions.map render)

/-! ## Expressions -/

def absent : Expr (Node α) :=
  .unknown missing "" []

def Content.toExpr (content : Content α) (whole : Node α) (children : List (Expr (Node α))) :
    Expr (Node α) :=
  let child (index : Nat) : Expr (Node α) := children.getD index absent
  match content.kind with
  | .integer => .integer whole content.integer
  | .boolean => .boolean whole content.truth
  | .ident => .ident whole content.name
  | .array => .array whole children
  | .binary => .binary whole (Operator.ofSymbol content.operator) (child 0) (child 1)
  | .bind => .bind whole content.name (child 0)
  | .sequence => .sequence whole (child 0) (child 1)
  | .call => .call whole content.name children
  | .conditional => .conditional whole (child 0) (child 1) (child 2)
  | .index => .index whole (child 0) (child 1)
  | .length => .length whole (child 0)
  | .each => .each whole content.name (child 0) (child 1)
  | .unknown name => .unknown whole name children

mutual

/-- The expression that a tree stands for. Each node of it notes the node that it comes from. -/
def toExpr : Node α → Expr (Node α)
  | missing => absent
  | node content children => content.toExpr (.node content children) (toExprs children)

def toExprs : List (Node α) → List (Expr (Node α))
  | [] => []
  | tree :: trees => tree.toExpr :: toExprs trees

end

instance : Placed (Node Position) where
  position := note
  form tree := tree.note.render

end Node

end ExprLang
