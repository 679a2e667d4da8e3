import ExprLang.Expr.Node
import ExprLang.Syntax.Parser
import Mathlib

/-!
# The grammar

Which runs of tokens are expressions and programs, and which trees they stand for. Operators are
put together in tiers: what stands between two operators of one tier is of the next tighter tier,
and the left operand may be of the same tier, so operators of one tier associate to the left.
-/

namespace ExprLang.Grammar

/-! ## Tiers -/

inductive Tier where
  | comparison
  | sum
  | product
  | subscript
deriving DecidableEq, Repr

namespace Tier

def operators : Tier → List Operator
  | comparison => [.comparison .equal, .comparison .notEqual, .comparison .less,
      .comparison .greater, .comparison .lessEqual, .comparison .greaterEqual]
  | sum => [.arithmetic .add, .arithmetic .subtract]
  | product => [.arithmetic .multiply, .arithmetic .divide]
  | subscript => []

def tighter : Tier → Tier
  | comparison => sum
  | sum => product
  | product => subscript
  | subscript => subscript

end Tier

/-! ## Expressions -/

/-- What a run of tokens can be as part of an expression. `arguments` are expressions with commas
between them, if any, and `others` are those behind the first one. -/
inductive Symbol where
  | expression
  | operation (tier : Tier)
  | primary
  | arguments
  | others
  | sequence
  | block
  | conditional
deriving DecidableEq, Repr

/-- A run of tokens stands for trees. -/
inductive Derives : Symbol → List Token → List (Expr Position) → Prop
  | bind {start name assign : Token} {text : String} {tokens : List Token}
      {value : Expr Position}
      (starts : start.lexeme = .keyword .letWord) (named : name.lexeme = .identifier text)
      (assigned : assign.lexeme = .mark .assign)
      (bound : Derives .expression tokens [value]) :
      Derives .expression (start :: name :: assign :: tokens) [.bind start.position text value]
  | binding {tokens : List Token} {tree : Expr Position}
      (operation : Derives (.operation .comparison) tokens [tree]) :
      Derives .expression tokens [tree]
  | binary {tier : Tier} {left right : List Token} {sign : Token} {mark : Mark}
      {operator : Operator} {first second : Expr Position}
      (listed : operator ∈ tier.operators) (marked : sign.lexeme = .mark mark)
      (spelled : mark.text = operator.symbol)
      (before : Derives (.operation tier) left [first])
      (behind : Derives (.operation tier.tighter) right [second]) :
      Derives (.operation tier) (left ++ sign :: right)
        [.binary sign.position operator first second]
  | tighter {tier : Tier} {tokens : List Token} {tree : Expr Position}
      (operand : Derives (.operation tier.tighter) tokens [tree]) :
      Derives (.operation tier) tokens [tree]
  | index {target inner : List Token} {opening closing : Token} {tree position : Expr Position}
      (before : Derives (.operation .subscript) target [tree])
      (opens : opening.lexeme = .mark .leftBracket)
      (inside : Derives .expression inner [position])
      (closes : closing.lexeme = .mark .rightBracket) :
      Derives (.operation .subscript) (target ++ opening :: inner ++ [closing])
        [.index opening.position tree position]
  | operand {tokens : List Token} {tree : Expr Position}
      (primary : Derives .primary tokens [tree]) : Derives (.operation .subscript) tokens [tree]
  | integer {token : Token} {numeral : String} {value : Option Int64}
      (digits : token.lexeme = .integer numeral value) :
      Derives .primary [token] [.integer token.position token.lexeme.value]
  | truth {token : Token} (word : token.lexeme = .keyword .trueWord) :
      Derives .primary [token] [.boolean token.position true]
  | falsehood {token : Token} (word : token.lexeme = .keyword .falseWord) :
      Derives .primary [token] [.boolean token.position false]
  | ident {token : Token} {text : String} (named : token.lexeme = .identifier text) :
      Derives .primary [token] [.ident token.position text]
  | call {name opening closing : Token} {text : String} {inner : List Token}
      {trees : List (Expr Position)} (named : name.lexeme = .identifier text)
      (opens : opening.lexeme = .mark .leftParen) (inside : Derives .arguments inner trees)
      (closes : closing.lexeme = .mark .rightParen) :
      Derives .primary (name :: opening :: inner ++ [closing]) [.call name.position text trees]
  | array {opening closing : Token} {inner : List Token} {trees : List (Expr Position)}
      (opens : opening.lexeme = .mark .leftBracket) (inside : Derives .arguments inner trees)
      (closes : closing.lexeme = .mark .rightBracket) :
      Derives .primary (opening :: inner ++ [closing]) [.array opening.position trees]
  | length {start opening closing : Token} {inner : List Token} {tree : Expr Position}
      (starts : start.lexeme = .keyword .len) (opens : opening.lexeme = .mark .leftParen)
      (inside : Derives .expression inner [tree])
      (closes : closing.lexeme = .mark .rightParen) :
      Derives .primary (start :: opening :: inner ++ [closing]) [.length start.position tree]
  | paren {opening closing : Token} {inner : List Token} {tree : Expr Position}
      (opens : opening.lexeme = .mark .leftParen) (inside : Derives .expression inner [tree])
      (closes : closing.lexeme = .mark .rightParen) :
      Derives .primary (opening :: inner ++ [closing]) [tree]
  | braces {tokens : List Token} {tree : Expr Position}
      (block : Derives .block tokens [tree]) : Derives .primary tokens [tree]
  | choice {tokens : List Token} {tree : Expr Position}
      (conditional : Derives .conditional tokens [tree]) : Derives .primary tokens [tree]
  | each {start name between : Token} {text : String} {inner rest : List Token}
      {bound body : Expr Position} (starts : start.lexeme = .keyword .each)
      (named : name.lexeme = .identifier text) (word : between.lexeme = .keyword .inWord)
      (limit : Derives .expression inner [bound]) (block : Derives .block rest [body]) :
      Derives .primary (start :: name :: between :: inner ++ rest)
        [.each start.position text bound body]
  | empty : Derives .arguments [] []
  | first {tokens rest : List Token} {tree : Expr Position} {trees : List (Expr Position)}
      (expression : Derives .expression tokens [tree]) (others : Derives .others rest trees) :
      Derives .arguments (tokens ++ rest) (tree :: trees)
  | done : Derives .others [] []
  | other {comma : Token} {tokens rest : List Token} {tree : Expr Position}
      {trees : List (Expr Position)} (between : comma.lexeme = .mark .comma)
      (expression : Derives .expression tokens [tree]) (others : Derives .others rest trees) :
      Derives .others (comma :: tokens ++ rest) (tree :: trees)
  | last {tokens : List Token} {tree : Expr Position}
      (expression : Derives .expression tokens [tree]) : Derives .sequence tokens [tree]
  | ended {tokens : List Token} {mark : Token} {tree : Expr Position}
      (expression : Derives .expression tokens [tree])
      (marked : mark.lexeme = .mark .semicolon) :
      Derives .sequence (tokens ++ [mark]) [tree]
  | more {tokens rest : List Token} {mark : Token} {tree next : Expr Position}
      (expression : Derives .expression tokens [tree])
      (marked : mark.lexeme = .mark .semicolon) (sequence : Derives .sequence rest [next]) :
      Derives .sequence (tokens ++ mark :: rest) [.sequence tree.note tree next]
  | block {opening closing : Token} {inner : List Token} {tree : Expr Position}
      (opens : opening.lexeme = .mark .leftBrace) (inside : Derives .sequence inner [tree])
      (closes : closing.lexeme = .mark .rightBrace) :
      Derives .block (opening :: inner ++ [closing]) [tree]
  | branches {start between : Token} {inner left right : List Token}
      {condition onTrue onFalse : Expr Position} (starts : start.lexeme = .keyword .ifWord)
      (test : Derives .expression inner [condition]) (block : Derives .block left [onTrue])
      (word : between.lexeme = .keyword .elseWord) (other : Derives .block right [onFalse]) :
      Derives .conditional (start :: inner ++ left ++ between :: right)
        [.conditional start.position condition onTrue onFalse]
  | chain {start between : Token} {inner left right : List Token}
      {condition onTrue onFalse : Expr Position} (starts : start.lexeme = .keyword .ifWord)
      (test : Derives .expression inner [condition]) (block : Derives .block left [onTrue])
      (word : between.lexeme = .keyword .elseWord)
      (other : Derives .conditional right [onFalse]) :
      Derives .conditional (start :: inner ++ left ++ between :: right)
        [.conditional start.position condition onTrue onFalse]

/-! ## Programs -/

def typeNames : List (String × Ty) :=
  [("Int", .int), ("Float", .float), ("Bool", .bool)]

inductive DerivesType : List Token → Ty → Prop
  | named {token : Token} {text : String} {type : Ty}
      (named : token.lexeme = .identifier text) (listed : (text, type) ∈ typeNames) :
      DerivesType [token] type
  | array {start opening closing : Token} {inner : List Token} {element : Ty}
      (starts : start.lexeme = .identifier "Array") (opens : opening.lexeme = .mark .less)
      (inside : DerivesType inner element) (closes : closing.lexeme = .mark .greater) :
      DerivesType (start :: opening :: inner ++ [closing]) (.array element)

inductive DerivesParameter : List Token → Parameter → Prop
  | typed {name colon : Token} {text : String} {tokens : List Token} {type : Ty}
      (named : name.lexeme = .identifier text) (between : colon.lexeme = .mark .colon)
      (typed : DerivesType tokens type) :
      DerivesParameter (name :: colon :: tokens) ⟨text, type, name.position⟩

inductive DerivesOthers : List Token → List Parameter → Prop
  | done : DerivesOthers [] []
  | other {comma : Token} {tokens rest : List Token} {parameter : Parameter}
      {parameters : List Parameter} (between : comma.lexeme = .mark .comma)
      (one : DerivesParameter tokens parameter) (others : DerivesOthers rest parameters) :
      DerivesOthers (comma :: tokens ++ rest) (parameter :: parameters)

inductive DerivesParameters : List Token → List Parameter → Prop
  | empty : DerivesParameters [] []
  | first {tokens rest : List Token} {parameter : Parameter} {parameters : List Parameter}
      (one : DerivesParameter tokens parameter) (others : DerivesOthers rest parameters) :
      DerivesParameters (tokens ++ rest) (parameter :: parameters)

inductive DerivesDefinition : List Token → Definition Position → Prop
  | function {start name opening closing : Token} {text : String} {inner rest : List Token}
      {parameters : List Parameter} {body : Expr Position}
      (starts : start.lexeme = .keyword .fn) (named : name.lexeme = .identifier text)
      (opens : opening.lexeme = .mark .leftParen)
      (inside : DerivesParameters inner parameters)
      (closes : closing.lexeme = .mark .rightParen) (block : Derives .block rest [body]) :
      DerivesDefinition (start :: name :: opening :: inner ++ closing :: rest)
        ⟨text, parameters, body, start.position⟩

/-- A run of tokens is a program. -/
inductive DerivesProgram : List Token → List (Definition Position) → Prop
  | empty : DerivesProgram [] []
  | definition {tokens rest : List Token} {definition : Definition Position}
      {definitions : List (Definition Position)} (first : DerivesDefinition tokens definition)
      (others : DerivesProgram rest definitions) :
      DerivesProgram (tokens ++ rest) (definition :: definitions)

end ExprLang.Grammar
