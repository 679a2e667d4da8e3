import ExprLang.Builtin.Console
import ExprLang.Lowering.Compiler
import ExprLang.Syntax.Parser
import ExprLang.Text.Blank
import ExprLang.Typed.Checker

/-!
# Sessions

A session keeps the functions that have been defined so far. An input is a command, a
definition or an expression. Definitions are kept only if all of them check; an expression is
compiled next to the functions of the session and run. An input that fails leaves the session
as it was.
-/

namespace ExprLang

structure Session where
  known : SignatureTable
  functions : List TypedDefinition
deriving Repr

inductive SessionError where
  | typeUsage
  | unknownCommand (input : Bytes)
  | reserved (name : String)
  | badSyntax (errors : SyntaxErrors)
  | badType (error : TypeError)
  | lowering (error : LoweringError)
  | fault (cause : Ssa.Fault)
  | noResult

def SessionError.message : SessionError → Bytes
  | typeUsage => Bytes.ofString "usage: :type <expr>"
  | unknownCommand input =>
    Bytes.ofString "unknown command " ++ input ++ Bytes.ofString ". Type :help for help"
  | reserved name => Bytes.ofString (name ++ " is reserved")
  | badSyntax errors => Bytes.ofString errors.first.message
  | badType error => Bytes.ofString error.message
  | lowering error => Bytes.ofString error.message
  | fault cause => Bytes.ofString cause.message
  | noResult => Bytes.ofString "no result"

/-- The answer to an input: what is printed, and whether the session goes on. -/
structure Reply where
  output : Bytes
  outcome : Except SessionError Bool

namespace Reply

def print (output : Bytes) : Reply := ⟨output, .ok false⟩

def quit : Reply := ⟨[], .ok true⟩

def fail (error : SessionError) (output : Bytes) : Reply := ⟨output, .error error⟩

end Reply

namespace Session

def start : Session := ⟨.standard, []⟩

def evaluationName : String := "__eval"

def moduleName : String := "repl"

def stepLimit : Nat := 50000000

def help : String :=
  "REPL commands:\n" ++
  "  fn name(...) \x7b ... \x7d   Define a function for the rest of the session\n" ++
  "  <expr>                 Evaluate an expression and print it with its type\n" ++
  "  :type <expr>           Print the type of an expression\n" ++
  "  :help                  Show this help\n" ++
  "  :quit                  Exit the REPL\n"

def isDefinition (input : Bytes) : Bool :=
  (Scanner.ofSource input).next.1.lexeme == .keyword .fn

def checkExpression (session : Session) (source : Bytes) : Except SessionError (Expr Typing) := do
  let tree ← (parseExpression source).mapError .badSyntax
  (tree.check session.known Scope.empty).1.mapError .badType

def define (session : Session) (source : Bytes) :
    Except SessionError (Session × List TypedDefinition) := do
  let definitions ← (parseProgram source).mapError .badSyntax
  if definitions.any fun definition => definition.name == evaluationName then
    throw (.reserved evaluationName)
  else
    match Definition.checkAll session.known definitions with
    | (.ok typed, known) => return (⟨known, session.functions ++ typed⟩, typed)
    | (.error error, _) => throw (.badType error)

def announce (definition : TypedDefinition) : String :=
  "defined " ++ definition.name ++ " : " ++ definition.signature.render ++ "\n"

def renderValue (word : Int64) : Ty → String
  | .bool => Text.truth (word ≠ 0)
  | .array _ => "<array>"
  | _ => Text.word word

def completeLines (output : Bytes) : Bytes :=
  match output.getLast? with
  | some last => if last == Bytes.newline then output else output ++ [Bytes.newline]
  | none => output

def compile (session : Session) (body : Expr Typing) : Except SessionError Ssa.Module :=
  (compileProgram moduleName .standard evaluationName
      (session.functions ++ [.ofExpression evaluationName body])).mapError
    fun failure => .lowering failure.error

def run (module : Ssa.Module) (type : Ty) : Reply :=
  let environment : Ssa.Environment Console := ⟨module, Console.host, some stepLimit⟩
  match environment.call (stepLimit + 2) evaluationName [] 0 (Console.start none) with
  | none => .fail .noResult []
  | some halt =>
    let output := halt.host.output.toList
    match halt.outcome with
    | .error fault => .fail (.fault fault) output
    | .ok [] => .fail .noResult output
    | .ok (word :: _) =>
      .print (completeLines output ++
        Bytes.ofString (renderValue word type ++ " : " ++ type.render ++ "\n"))

def evaluate (session : Session) (source : Bytes) : Reply :=
  match session.checkExpression source with
  | .error error => .fail error []
  | .ok body =>
    match session.compile body with
    | .error error => .fail error []
    | .ok module => run module body.type

def printType (session : Session) (source : Bytes) : Reply :=
  if source.isEmpty then .fail .typeUsage []
  else
    match session.checkExpression source with
    | .error error => .fail error []
    | .ok tree => .print (Bytes.ofString (tree.type.render ++ "\n"))

def commandSign : UInt8 := 58

def typeCommand : Bytes := Bytes.ofString ":type"

def answer (session : Session) (input : Bytes) : Session × Reply :=
  let input := input.trim
  if input.isEmpty then (session, .print [])
  else if input == Bytes.ofString ":quit" then (session, .quit)
  else if input == Bytes.ofString ":help" then (session, .print (Bytes.ofString help))
  else if typeCommand.isPrefixOf input then
    (session, session.printType (Bytes.trim (input.drop typeCommand.length)))
  else if input.head? == some commandSign then (session, .fail (.unknownCommand input) [])
  else if isDefinition input then
    match session.define input with
    | .ok (session, definitions) =>
      (session, .print (Bytes.ofString (String.join (definitions.map announce))))
    | .error error => (session, .fail error [])
  else (session, session.evaluate input)

end Session

end ExprLang
