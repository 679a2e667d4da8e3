import ExprLang.Expr
import ExprLang.Syntax.Error
import ExprLang.Token.Scanner

/-!
# From tokens to trees

A recursive-descent parser over the tokens of a source text. A cursor stands on a token and
remembers what was wrong with the tokens up to there; parsing goes on past an integer that is
too large, but no token that has to be there is accepted any more.

Every step down takes one unit of fuel. Between two steps of the same kind at least one token
is passed, so the fuel that `parseProgram` and `parseExpression` supply is always enough.
-/

namespace ExprLang

structure Cursor where
  current : Token
  ahead : List Token
  errors : List SyntaxError
deriving Repr

namespace Cursor

def ofSource (source : Bytes) : Cursor :=
  match Token.ofSource source with
  | first :: rest => ⟨first, rest, first.error?.toList⟩
  | [] => ⟨⟨Position.start, .endOfInput⟩, [], []⟩

/-- Moves to the next token. The cursor never leaves the last one. -/
def advance (cursor : Cursor) : Cursor :=
  match cursor.ahead with
  | next :: rest => ⟨next, rest, cursor.errors ++ next.error?.toList⟩
  | [] => cursor

/-- The errors to report when the parser itself finds something wrong here: an error of an
earlier token comes first, and then nothing is added. -/
def blame (cursor : Cursor) (cause : SyntaxError.Cause) : SyntaxErrors :=
  match cursor.errors with
  | first :: later => ⟨first, later⟩
  | [] => ⟨⟨cursor.current.position, cause⟩, []⟩

/-- The errors to report when a name is no type, which is said in any case. -/
def blameType (cursor : Cursor) (failure : UnknownType) : SyntaxErrors :=
  let error : SyntaxError := ⟨cursor.current.position, .unknownType failure⟩
  match cursor.errors with
  | first :: later => ⟨first, later ++ [error]⟩
  | [] => ⟨error, []⟩

end Cursor

abbrev Parser := StateT Cursor (Except SyntaxErrors)

namespace Parser

/-! ## Single tokens -/

def lexeme : Parser Lexeme := do
  return (← get).current.lexeme

def position : Parser Position := do
  return (← get).current.position

def advance : Parser Unit :=
  modify Cursor.advance

def fail (cause : SyntaxError.Cause) : Parser α := do
  throw ((← get).blame cause)

/-- Gives up because of the lexeme under the cursor. -/
def failExpecting (what : String) : Parser α := do
  fail (.expected what (← lexeme))

/-- Gives up because nothing can start with the lexeme under the cursor. -/
def failUnexpected : Parser α := do
  fail (.unexpected (← lexeme))

def expect (wanted : Lexeme) (what : String) : Parser Unit := do
  let cursor ← get
  if cursor.errors.isEmpty && cursor.current.lexeme == wanted then advance
  else failExpecting what

def identifier (what : String) : Parser String := do
  let cursor ← get
  match cursor.errors, cursor.current.lexeme with
  | [], .identifier name =>
    advance
    return name
  | _, _ => failExpecting what

/-! ## Types -/

def type : (fuel : Nat) → Parser Ty
  | 0 => failUnexpected
  | fuel + 1 => do
    let name ← identifier "type name"
    if name == "Array" then
      expect (.mark .less) "'<'"
      let element ← type fuel
      expect (.mark .greater) "'>'"
      return .array element
    else
      match Ty.parse name with
      | .ok found => return found
      | .error failure => throw ((← get).blameType failure)

/-! ## Expressions -/

def operator? : Lexeme → Option Operator
  | .mark .equal => some (.comparison .equal)
  | .mark .notEqual => some (.comparison .notEqual)
  | .mark .less => some (.comparison .less)
  | .mark .greater => some (.comparison .greater)
  | .mark .lessEqual => some (.comparison .lessEqual)
  | .mark .greaterEqual => some (.comparison .greaterEqual)
  | .mark .plus => some (.arithmetic .add)
  | .mark .minus => some (.arithmetic .subtract)
  | .mark .asterisk => some (.arithmetic .multiply)
  | .mark .slash => some (.arithmetic .divide)
  | _ => none

/-- How tightly an operator binds. Indexing binds tighter than every operator. -/
def precedence : Operator → Nat
  | .comparison _ => 2
  | .arithmetic .add => 3
  | .arithmetic .subtract => 3
  | .arithmetic .multiply => 4
  | .arithmetic .divide => 4
  | .unknown _ => 0

def closingName : Lexeme → String
  | .endOfInput => "';' or end of input"
  | _ => "'\x7d'"

mutual

def expression : (fuel : Nat) → Parser (Expr Position)
  | 0 => failUnexpected
  | fuel + 1 => do
    match ← lexeme with
    | .keyword .letWord =>
      let start ← position
      advance
      let name ← identifier "variable name"
      expect (.mark .assign) "'='"
      let value ← expression fuel
      return .bind start name value
    | _ => operation fuel 0

/-- Parses operands and operators that bind at least as tightly as `floor`. -/
def operation : (fuel : Nat) → (floor : Nat) → Parser (Expr Position)
  | 0, _ => failUnexpected
  | fuel + 1, floor => do
    let left ← primary fuel
    operationFrom fuel floor left

def operationFrom : (fuel : Nat) → (floor : Nat) → (left : Expr Position) →
    Parser (Expr Position)
  | 0, _, _ => failUnexpected
  | fuel + 1, floor, left => do
    let start ← position
    match ← lexeme with
    | .mark .leftBracket =>
      advance
      let index ← expression fuel
      expect (.mark .rightBracket) "']'"
      operationFrom fuel floor (.index start left index)
    | found =>
      match operator? found with
      | none => return left
      | some operator =>
        if precedence operator < floor then return left
        else
          advance
          let right ← operation fuel (precedence operator + 1)
          operationFrom fuel floor (.binary start operator left right)

def primary : (fuel : Nat) → Parser (Expr Position)
  | 0 => failUnexpected
  | fuel + 1 => do
    let start ← position
    match ← lexeme with
    | .integer numeral value =>
      advance
      return .integer start (Lexeme.integer numeral value).value
    | .keyword .trueWord =>
      advance
      return .boolean start true
    | .keyword .falseWord =>
      advance
      return .boolean start false
    | .identifier name =>
      advance
      match ← lexeme with
      | .mark .leftParen =>
        advance
        return .call start name (← items fuel .rightParen "',' or ')'" true)
      | _ => return .ident start name
    | .mark .leftBracket =>
      advance
      return .array start (← items fuel .rightBracket "',' or ']'" true)
    | .keyword .len =>
      advance
      expect (.mark .leftParen) "'('"
      let target ← expression fuel
      expect (.mark .rightParen) "')'"
      return .length start target
    | .mark .leftParen =>
      advance
      let inner ← expression fuel
      expect (.mark .rightParen) "')'"
      return inner
    | .mark .leftBrace => block fuel
    | .keyword .ifWord => conditional fuel
    | .keyword .each =>
      advance
      let name ← identifier "loop variable"
      expect (.keyword .inWord) "'in'"
      let bound ← expression fuel
      let body ← block fuel
      return .each start name bound body
    | _ => failUnexpected

def items : (fuel : Nat) → (closing : Mark) → (what : String) → (atFirst : Bool) →
    Parser (List (Expr Position))
  | 0, _, _, _ => failUnexpected
  | fuel + 1, closing, what, atFirst => do
    if (← lexeme) == .mark closing then
      advance
      return []
    else
      if !atFirst then expect (.mark .comma) what
      let item ← expression fuel
      let others ← items fuel closing what false
      return item :: others

/-- Parses expressions with semicolons between them, up to and including the closing lexeme.
A semicolon may stand before that lexeme. -/
def sequence : (fuel : Nat) → (closing : Lexeme) → Parser (Expr Position)
  | 0, _ => failUnexpected
  | fuel + 1, closing => do
    let first ← expression fuel
    let more ← continues closing
    if more then
      let second ← sequence fuel closing
      return .sequence first.note first second
    else if (← lexeme) == closing then
      if closing != .endOfInput then advance
      return first
    else failExpecting (closingName closing)

/-- Passes a semicolon; tells whether another expression has to follow. -/
def continues (closing : Lexeme) : Parser Bool := do
  if (← lexeme) == .mark .semicolon then
    advance
    return (← lexeme) != closing
  else return false

def block : (fuel : Nat) → Parser (Expr Position)
  | 0 => failUnexpected
  | fuel + 1 => do
    expect (.mark .leftBrace) "'\x7b'"
    if (← lexeme) == .mark .rightBrace then fail .emptyBlock
    else sequence fuel (.mark .rightBrace)

/-- Parses a conditional; another one may stand directly behind its `else`. -/
def conditional : (fuel : Nat) → Parser (Expr Position)
  | 0 => failUnexpected
  | fuel + 1 => do
    let start ← position
    advance
    let condition ← expression fuel
    let onTrue ← block fuel
    match ← lexeme with
    | .keyword .elseWord =>
      advance
      let onFalse ←
        match ← lexeme with
        | .keyword .ifWord => conditional fuel
        | _ => block fuel
      return .conditional start condition onTrue onFalse
    | _ => failExpecting "'else'"

end

/-! ## Programs -/

def parameters : (fuel : Nat) → (atFirst : Bool) → Parser (List Parameter)
  | 0, _ => failUnexpected
  | fuel + 1, atFirst => do
    if (← lexeme) == .mark .rightParen then
      advance
      return []
    else
      if !atFirst then expect (.mark .comma) "',' or ')'"
      let start ← position
      let name ← identifier "parameter name"
      expect (.mark .colon) "':'"
      let found ← type fuel
      let others ← parameters fuel false
      return ⟨name, found, start⟩ :: others

def definition (fuel : Nat) : Parser (Definition Position) := do
  let start ← position
  expect (.keyword .fn) "'fn'"
  let name ← identifier "function name"
  expect (.mark .leftParen) "'('"
  let found ← parameters fuel true
  let body ← block fuel
  return ⟨name, found, body, start⟩

def definitions : (fuel : Nat) → Parser (List (Definition Position))
  | 0 => failUnexpected
  | fuel + 1 => do
    if (← lexeme) == .endOfInput then return []
    else
      let first ← definition fuel
      let others ← definitions fuel
      return first :: others

end Parser

namespace Cursor

def fuel (cursor : Cursor) : Nat :=
  8 * (cursor.ahead.length + 1)

/-- Runs a parser; it succeeds only if no token was wrong. -/
def parse (cursor : Cursor) (parser : Parser α) : Except SyntaxErrors α :=
  match parser cursor with
  | .error errors => .error errors
  | .ok (result, final) =>
    match final.errors with
    | first :: later => .error ⟨first, later⟩
    | [] => .ok result

end Cursor

def parseProgram (source : Bytes) : Except SyntaxErrors (List (Definition Position)) :=
  let cursor := Cursor.ofSource source
  cursor.parse (Parser.definitions cursor.fuel)

def parseExpression (source : Bytes) : Except SyntaxErrors (Expr Position) :=
  let cursor := Cursor.ofSource source
  cursor.parse (Parser.sequence cursor.fuel .endOfInput)

end ExprLang
