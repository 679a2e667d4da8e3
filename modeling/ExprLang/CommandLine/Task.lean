import ExprLang.Builtin.Console
import ExprLang.Lowering.Compiler
import ExprLang.ObjectFile
import ExprLang.Settings
import ExprLang.Syntax.Parser
import ExprLang.Typed.Checker

/-!
# Tasks

The work of the commands on one source file: reading, parsing, checking, compiling, and then
printing, running or writing the result. A task changes files, prints and reports, and may
fail; what it did before it failed remains.
-/

namespace ExprLang

inductive TaskError where
  | reading (path : String) (error : FileError)
  | lexing (path : String) (error : SyntaxError)
  | parsing (path : String) (errors : SyntaxErrors)
  | checking (path : String) (error : TypeError)
  | declaring (path : String) (error : LoweringError)
  | generating (path : String) (error : LoweringError)
  | emitting (path format : String) (error : Ssa.FinishError ObjectError)
  | makingDirectory (error : FileError)
  | writing (path : String) (error : FileError)
  | noEntry (path entry : String)
  | running (path entry : String) (fault : Ssa.Fault)
  | unfinished (path entry : String)
  | toLlvm (path : String) (error : EmitError)

namespace TaskError

def during (path action reason : String) : Bytes :=
  Bytes.ofString (path ++ ": " ++ action ++ ": " ++ reason)

def message : TaskError → Bytes
  | reading path error => Bytes.ofString ("reading " ++ path ++ ": " ++ error.message)
  | lexing path error => during path "lexing" error.message
  | parsing path errors => during path "parsing" errors.first.message
  | checking path error => during path "type checking" error.message
  | declaring path error => during path "declaring builtins" error.message
  | generating path error => during path "code generation" error.message
  | emitting path format error =>
    Bytes.ofString (path ++ ": emitting " ++ format ++ ": ") ++
      match error with
      | .emitter error => error.message
      | .undefined name =>
        Bytes.ofString ((Ssa.FinishError.undefined name).message EmitError.message)
      | .noEmitter module =>
        Bytes.ofString ((Ssa.FinishError.noEmitter module).message EmitError.message)
  | makingDirectory error => Bytes.ofString ("creating output directory: " ++ error.message)
  | writing path error => Bytes.ofString ("writing " ++ path ++ ": " ++ error.message)
  | noEntry path entry =>
    Bytes.ofString (path ++ ": no function " ++ Text.quote entry ++ " to run")
  | running path entry fault => during path ("running " ++ entry) fault.message
  | unfinished path entry => during path ("running " ++ entry) "no end"
  | toLlvm path error => during path "translating to LLVM" error.message

end TaskError

structure Progress where
  files : FileSystem
  output : Bytes
  errors : Bytes

abbrev Task := ExceptT TaskError (StateM Progress)

namespace Task

def print (text : Bytes) : Task Unit :=
  modify fun progress => { progress with output := progress.output ++ text }

def report (settings : Settings) (line : String) : Task Unit :=
  if settings.verbose then
    modify fun progress =>
      { progress with errors := progress.errors ++ Bytes.ofString (line ++ "\n") }
  else return

def counted (count : Nat) (things : String) : String :=
  Text.decimal count ++ " " ++ things

def readSource (settings : Settings) (path : String) : Task Bytes := do
  match (← get).files.read path with
  | .error error => throw (.reading path error)
  | .ok source =>
    report settings ("read " ++ path ++ " (" ++ counted source.length "bytes" ++ ")")
    return source

def parse (settings : Settings) (path : String) : Task (List (Definition Position)) := do
  let source ← readSource settings path
  match parseProgram source with
  | .error errors => throw (.parsing path errors)
  | .ok definitions =>
    report settings ("parsed " ++ counted definitions.length "functions")
    return definitions

def check (settings : Settings) (path : String) : Task (List TypedDefinition) := do
  let definitions ← parse settings path
  match (Definition.checkAll .standard definitions).1 with
  | .error error => throw (.checking path error)
  | .ok typed =>
    if typed.all fun definition => definition.name != settings.entry then
      report settings
        ("warning: " ++ path ++ " defines no function " ++ Text.quote settings.entry)
    return typed

/-- The module of a source file. It is named like the file. -/
def compile (settings : Settings) (path : String) : Task Ssa.Module := do
  let typed ← check settings path
  match Compiler.start (Path.stem path) .standard settings.entry with
  | .error failure => throw (.declaring path failure.error)
  | .ok compiler =>
    match compiler.addAll typed with
    | .error failure => throw (.generating path failure.error)
    | .ok compiler =>
      report settings ("generated " ++ counted typed.length "functions")
      return compiler.module

/-! ## Printing -/

def tokenLines : List Token → Bytes × Option SyntaxError
  | [] => ([], none)
  | token :: tokens =>
    match token.error? with
    | some error => ([], some error)
    | none =>
      let line := token.position.render ++ "\t" ++ token.lexeme.kindName ++ "\t" ++
        token.lexeme.text ++ "\n"
      let (lines, error) := tokenLines tokens
      (Bytes.ofString line ++ lines, error)

def printTokens (settings : Settings) (path : String) : Task Unit := do
  let source ← readSource settings path
  let (lines, error) := tokenLines (Token.ofSource source)
  print lines
  match error with
  | some error => throw (.lexing path error)
  | none => return

def printTrees (settings : Settings) (path : String) : Task Unit := do
  let definitions ← parse settings path
  print (Bytes.ofString (String.join (definitions.map fun definition =>
    definition.render ++ "\n")))

def printSignatures (settings : Settings) (path : String) : Task Unit := do
  let typed ← check settings path
  print (Bytes.ofString (String.join (typed.map fun definition =>
    definition.name ++ " : " ++ definition.signature.render ++ "\n")))

def printSsa (settings : Settings) (path : String) : Task Unit := do
  let module ← compile settings path
  print (Bytes.ofString module.render)

def printLlvm (settings : Settings) (path : String) : Task Unit := do
  let module ← compile settings path
  match (TextFormat.llvm settings.triple).emit module with
  | .error error => throw (.toLlvm path error)
  | .ok text => print (Bytes.ofString text)

/-! ## Building -/

def finishText (settings : Settings) (path : String) (format : TextFormat)
    (module : Ssa.Module) : Task Bytes :=
  match module.finish (some fun module => (format.emit module).mapError ObjectError.text) with
  | .error error => throw (.emitting path settings.emit error)
  | .ok text => return Bytes.ofString text

def emit (workshop : Workshop) (settings : Settings) (path : String) (module : Ssa.Module) :
    Task Bytes :=
  match settings.format with
  | .ssa => finishText settings path .ssa module
  | .llvm => finishText settings path (.llvm settings.triple) module
  | .object => do
    let text ← finishText settings path (.llvm settings.triple) module
    let (files, object) :=
      ObjectFile.make workshop (← get).files settings.llc settings.triple text
    modify fun progress => { progress with files }
    match object with
    | .error error => throw (.emitting path settings.emit (.emitter error))
    | .ok object => return object

def prepareDirectory (path : String) : Task Unit := do
  let directory := Path.directory path
  if directory != Path.here then
    match (← get).files.makeDirectories directory with
    | (files, none) => modify fun progress => { progress with files }
    | (files, some error) =>
      modify fun progress => { progress with files }
      throw (.makingDirectory error)

def writeFile (path : String) (content : Bytes) : Task Unit := do
  match (← get).files.write path content with
  | .error error => throw (.writing path error)
  | .ok files => modify fun progress => { progress with files }

def build (workshop : Workshop) (settings : Settings) (path : String) : Task Unit := do
  let module ← compile settings path
  let content ← emit workshop settings path module
  prepareDirectory settings.output
  writeFile settings.output content
  report settings ("wrote " ++ settings.output ++ " (" ++ counted content.length "bytes" ++ ")")

/-! ## Running -/

def fuel : Nat := 0x4000000000000000

/-- Compiles a source file and runs its entry function. What the program prints appears even
if it fails. -/
def execute (settings : Settings) (input : Bytes) (path : String) : Task Unit := do
  let module ← compile settings path
  if (module.find? settings.entry).isNone then throw (.noEntry path settings.entry)
  let environment : Ssa.Environment Console := ⟨module, Console.host, none⟩
  match environment.call fuel settings.entry [] 0 (Console.start (some input)) with
  | none => throw (.unfinished path settings.entry)
  | some halt =>
    print halt.host.output.toList
    match halt.outcome with
    | .error fault => throw (.running path settings.entry fault)
    | .ok results =>
      report settings (settings.entry ++ " returned after " ++ counted halt.steps "steps")
      match results with
      | [] => return
      | result :: _ => report settings ("result: " ++ Text.word result)

end Task

end ExprLang
