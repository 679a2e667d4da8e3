import ExprLang.CommandLine.Command
import ExprLang.CommandLine.Task
import ExprLang.Session.Dialogue
import ExprLang.Session.History
import ExprLang.Settings.Loading

/-!
# The command line

The program as a function: from arguments and surroundings to an exit status, what is printed
and the files that remain.
-/

namespace ExprLang.CommandLine

/-- What the program finds when it is started. Nothing is known about the readers for settings, the
programs of the machine and the numbers that make new names. -/
structure Surroundings where
  files : FileSystem
  input : Bytes
  environment : List (String × String)
  home : String
  readers : Settings.Readers
  programs : Programs
  numbers : Nat → UInt32

structure Outcome where
  status : Nat
  output : Bytes
  errors : Bytes
  files : FileSystem

namespace Surroundings

def workshop (around : Surroundings) : Workshop :=
  ⟨around.programs, FileSystem.temporaryDirectory around.environment, around.numbers⟩

def finish (around : Surroundings) (status : Nat) (output errors : Bytes) : Outcome :=
  ⟨status, output, errors, around.files⟩

def refuse (around : Surroundings) (message : String) (usage : String) : Outcome :=
  around.finish 1 [] (Bytes.ofString (message ++ "\n" ++ usage))

def fail (around : Surroundings) (message : Bytes) : Outcome :=
  around.finish 1 [] (Bytes.ofString "Error: " ++ message ++ [Bytes.newline])

end Surroundings

/-! ## Commands with a file -/

def task (around : Surroundings) (command : FileCommand) (settings : Settings) (path : String) :
    Task Unit :=
  match command with
  | .lex => Task.printTokens settings path
  | .ast => Task.printTrees settings path
  | .type => Task.printSignatures settings path
  | .ssa => Task.printSsa settings path
  | .llvm => Task.printLlvm settings path
  | .build => Task.build around.workshop settings path
  | .run => Task.execute settings around.input path

/-- Changes the settings for which a flag is set. A command that does not know a flag leaves
it empty. -/
def applyFlags (flags : Flags) (settings : Settings) : Settings :=
  { settings with
    verbose := settings.verbose || flags.switch "v"
    output := if flags.text "o" == "" then settings.output else flags.text "o"
    emit := if flags.text "emit" == "" then settings.emit else flags.text "emit" }

def perform (around : Surroundings) (command : FileCommand) (settings : Settings)
    (path : String) : Outcome :=
  let work : Task Unit := do
    Task.report settings (command.name ++ " " ++ path)
    task around command settings path
  let (result, progress) := StateT.run (ExceptT.run work) ⟨around.files, [], []⟩
  match result with
  | .ok () => ⟨0, progress.output, progress.errors, progress.files⟩
  | .error error =>
    ⟨1, progress.output,
      progress.errors ++ Bytes.ofString "Error: " ++ error.message ++ [Bytes.newline],
      progress.files⟩

def runOnFile (around : Surroundings) (command : FileCommand) (flags : Flags)
    (path : String) : Outcome :=
  match Settings.load around.readers around.files around.environment (flags.text "config") path
  with
  | .error error => around.fail error.message
  | .ok settings =>
    let settings := applyFlags flags settings
    match settings.validate with
    | .error error => around.fail (Bytes.ofString error.message)
    | .ok () => perform around command settings path

def runFileCommand (around : Surroundings) (command : FileCommand)
    (arguments : List String) : Outcome :=
  match Flags.read command.flags arguments with
  | .help => around.finish 0 [] (Bytes.ofString command.usage)
  | .failed error => around.refuse error.message command.usage
  | .done flags =>
    match flags.arguments with
    | [path] => runOnFile around command flags path
    | _ => around.refuse "Error: expected exactly one file argument" command.usage

/-! ## Interactive sessions -/

def banner : String :=
  "wayto REPL\nCtrl+C cancels input, Ctrl+D exits. Type :quit to exit.\n"

def historyName : String := ".wayto_history"

/-- The history in a file; what cannot be read is no history. -/
def loadHistory (files : FileSystem) (path : String) : History :=
  match files.read path with
  | .ok text => History.ofText text
  | .error _ => .empty

def saveHistory (files : FileSystem) (path : String) (history : History) : FileSystem :=
  match files.write path history.toText with
  | .ok files => files
  | .error _ => files

def runSession (around : Surroundings) : Outcome :=
  let path := Path.join around.home historyName
  let events := around.input.readLines.map DialogueEvent.line
  let dialogue := (Dialogue.start.run events).1
  let history := dialogue.recorded.foldl History.add (loadHistory around.files path)
  ⟨0, Bytes.ofString banner ++ dialogue.output, dialogue.errors,
    saveHistory around.files path history⟩

def runSessionCommand (around : Surroundings) (arguments : List String) : Outcome :=
  match Flags.read [] arguments with
  | .help => around.finish 0 [] (Bytes.ofString sessionUsage)
  | .failed error => around.refuse error.message sessionUsage
  | .done flags =>
    if flags.arguments.isEmpty then runSession around
    else around.refuse "Error: repl takes no arguments" sessionUsage

/-! ## The program -/

def run (around : Surroundings) : List String → Outcome
  | [] => around.finish 1 [] (Bytes.ofString programUsage)
  | name :: arguments =>
    match FileCommand.ofName? name with
    | some command => runFileCommand around command arguments
    | none =>
      if name == "repl" then runSessionCommand around arguments
      else if name == "help" || name == "-h" || name == "--help" then
        around.finish 0 (Bytes.ofString programUsage) []
      else around.refuse ("Unknown command: " ++ name ++ "\n") programUsage

end ExprLang.CommandLine
