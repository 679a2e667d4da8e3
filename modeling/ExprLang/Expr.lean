import ExprLang.Position
import ExprLang.Ty

/-!
# Expressions

The syntax tree of the source language. Every node carries a note: parsed trees note a
`Position`, checked trees note a position and a type. The last form, `unknown`, stands for
nodes that come from elsewhere and are no expression of the language.
-/

namespace ExprLang

/-! ## Operators -/

inductive Arithmetic where
  | add
  | subtract
  | multiply
  | divide
deriving DecidableEq, Repr

inductive Comparison where
  | equal
  | notEqual
  | less
  | greater
  | lessEqual
  | greaterEqual
deriving DecidableEq, Repr

inductive Operator where
  | arithmetic (operation : Arithmetic)
  | comparison (relation : Comparison)
  | unknown (symbol : String)
deriving DecidableEq, Repr

def Arithmetic.symbol : Arithmetic → String
  | add => "+"
  | subtract => "-"
  | multiply => "*"
  | divide => "/"

def Comparison.symbol : Comparison → String
  | equal => "=="
  | notEqual => "!="
  | less => "<"
  | greater => ">"
  | lessEqual => "<="
  | greaterEqual => ">="

namespace Operator

def symbol : Operator → String
  | arithmetic operation => operation.symbol
  | comparison relation => relation.symbol
  | unknown symbol => symbol

def all : List Operator :=
  [.arithmetic .add, .arithmetic .subtract, .arithmetic .multiply, .arithmetic .divide,
   .comparison .equal, .comparison .notEqual, .comparison .less, .comparison .greater,
   .comparison .lessEqual, .comparison .greaterEqual]

def ofSymbol (symbol : String) : Operator :=
  (all.find? fun operator => operator.symbol == symbol).getD (unknown symbol)

end Operator

/-! ## Trees -/

inductive Expr (α : Type) where
  | integer (note : α) (value : Int64)
  | boolean (note : α) (value : Bool)
  | ident (note : α) (name : String)
  | array (note : α) (elements : List (Expr α))
  | binary (note : α) (operator : Operator) (left right : Expr α)
  | bind (note : α) (name : String) (value : Expr α)
  | sequence (note : α) (first second : Expr α)
  | call (note : α) (function : String) (arguments : List (Expr α))
  | conditional (note : α) (condition onTrue onFalse : Expr α)
  | index (note : α) (target position : Expr α)
  | length (note : α) (target : Expr α)
  | each (note : α) (name : String) (bound body : Expr α)
  | unknown (note : α) (kind : String) (children : List (Expr α))
deriving Repr

namespace Expr

instance [Inhabited α] : Inhabited (Expr α) := ⟨.integer default 0⟩

def note : Expr α → α
  | integer note _ | boolean note _ | ident note _ | array note _ | binary note _ _ _
  | bind note _ _ | sequence note _ _ | call note _ _ | conditional note _ _ _
  | index note _ _ | length note _ | each note _ _ _ | unknown note _ _ => note

mutual

def notes : Expr α → List α
  | integer note _ => [note]
  | boolean note _ => [note]
  | ident note _ => [note]
  | array note elements => note :: notesAll elements
  | binary note _ left right => note :: (left.notes ++ right.notes)
  | bind note _ value => note :: value.notes
  | sequence note first second => note :: (first.notes ++ second.notes)
  | call note _ arguments => note :: notesAll arguments
  | conditional note condition onTrue onFalse =>
    note :: (condition.notes ++ (onTrue.notes ++ onFalse.notes))
  | index note target position => note :: (target.notes ++ position.notes)
  | length note target => note :: target.notes
  | each note _ bound body => note :: (bound.notes ++ body.notes)
  | unknown note _ children => note :: notesAll children

def notesAll : List (Expr α) → List α
  | [] => []
  | tree :: trees => tree.notes ++ notesAll trees

end

mutual

def map (change : α → β) : Expr α → Expr β
  | integer note value => .integer (change note) value
  | boolean note value => .boolean (change note) value
  | ident note name => .ident (change note) name
  | array note elements => .array (change note) (mapAll change elements)
  | binary note operator left right =>
    .binary (change note) operator (left.map change) (right.map change)
  | bind note name value => .bind (change note) name (value.map change)
  | sequence note first second =>
    .sequence (change note) (first.map change) (second.map change)
  | call note function arguments => .call (change note) function (mapAll change arguments)
  | conditional note condition onTrue onFalse =>
    .conditional (change note) (condition.map change) (onTrue.map change) (onFalse.map change)
  | index note target position =>
    .index (change note) (target.map change) (position.map change)
  | length note target => .length (change note) (target.map change)
  | each note name bound body =>
    .each (change note) name (bound.map change) (body.map change)
  | unknown note kind children => .unknown (change note) kind (mapAll change children)

def mapAll (change : α → β) : List (Expr α) → List (Expr β)
  | [] => []
  | tree :: trees => tree.map change :: mapAll change trees

end

end Expr

/-! ## Definitions -/

structure Parameter where
  name : String
  type : Ty
  position : Position
deriving DecidableEq, Repr

/-- A function definition as it is written; its body carries notes of type `α`. -/
structure Definition (α : Type) where
  name : String
  parameters : List Parameter
  body : Expr α
  position : Position
deriving Repr

end ExprLang
