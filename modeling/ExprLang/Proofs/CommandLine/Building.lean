import ExprLang.CommandLine
import ExprLang.CommandLine.Task
import ExprLang.Proofs.Files.Contents
import ExprLang.Proofs.Lowering.Success

/-!
# Building and printing

Building writes what printing shows, and nothing is written unless there is something to write.
Main statement: building as text succeeds if and only if printing does, the file that is built then
holds what is printed, and where reading, parsing, checking, generating code or emitting fails, no
file changes.
-/

/-!
## What tasks do

Up to the module of a source file a task only reads files and reports. What it gives depends on the
files, on the path and on the name of the entry function, and every module that it gives can be
written out.
-/

namespace ExprLang.Task

variable {α β : Type} {settings : Settings} {path : String}

/-! ## Tasks that only report -/

/-- All that a task does is to report, and what it gives depends on the files only. -/
def Gives (work : Task α) (answer : FileSystem → Except TaskError α) : Prop :=
  ∀ progress, ∃ lines, StateT.run (ExceptT.run work) progress =
    (answer progress.files, { progress with errors := progress.errors ++ lines })

theorem gives_pure (value : α) : Gives (pure value) fun _ => .ok value := by
  intro progress
  exact ⟨[], by rw [List.append_nil]; rfl⟩

theorem gives_report (line : String) : Gives (report settings line) fun _ => .ok () := by
  intro progress
  rw [report]
  split
  · exact ⟨_, rfl⟩
  · exact gives_pure () progress

section Binding

variable {work : Task α} {next : α → Task β} {progress middle : Progress}

theorem run_get : StateT.run (ExceptT.run (get : Task Progress)) progress =
    (.ok progress, progress) :=
  rfl

theorem run_bind_ok {value : α}
    (first : StateT.run (ExceptT.run work) progress = (.ok value, middle)) :
    StateT.run (ExceptT.run (work >>= next)) progress =
      StateT.run (ExceptT.run (next value)) middle := by
  rw [ExceptT.run_bind, StateT.run_bind, first]
  rfl

theorem run_bind_error {error : TaskError}
    (first : StateT.run (ExceptT.run work) progress = (.error error, middle)) :
    StateT.run (ExceptT.run (work >>= next)) progress = (.error error, middle) := by
  rw [ExceptT.run_bind, StateT.run_bind, first]
  rfl

end Binding

theorem Gives.bind {work : Task α} {next : α → Task β}
    {answer : FileSystem → Except TaskError α} {others : α → FileSystem → Except TaskError β}
    (first : Gives work answer) (second : ∀ value, Gives (next value) (others value)) :
    Gives (work >>= next) fun files => answer files >>= fun value => others value files := by
  intro progress
  rcases first progress with ⟨lines, done⟩
  dsimp only
  cases given : answer progress.files with
  | error error =>
      rw [given] at done
      apply Exists.intro lines
      rw [run_bind_error done]
      rfl
  | ok value =>
      rw [given] at done
      rcases second value { progress with errors := progress.errors ++ lines } with ⟨more, rest⟩
      apply Exists.intro (lines ++ more)
      rw [run_bind_ok done, rest, List.append_assoc]
      rfl

def definitionsOf (path : String) (files : FileSystem) :
    Except TaskError (List (Definition Position)) := do
  let source ← (files.read path).mapError (.reading path)
  (parseProgram source).mapError (.parsing path)

def functionsOf (path : String) (files : FileSystem) : Except TaskError (List TypedDefinition) := do
  let definitions ← definitionsOf path files
  (Definition.checkAll .standard definitions).1.mapError (.checking path)

def moduleOf (entry path : String) (files : FileSystem) : Except TaskError Ssa.Module := do
  let functions ← functionsOf path files
  (compileProgram (Path.stem path) .standard entry functions).mapError fun failure =>
    .generating path failure.error

def textOf (settings : Settings) (path : String) (format : TextFormat) (module : Ssa.Module) :
    Except TaskError Bytes :=
  ((module.finish (some fun module => (format.emit module).mapError ObjectError.text)).mapError
    (.emitting path settings.emit)).map Bytes.ofString

def emitted (workshop : Workshop) (settings : Settings) (path : String) (module : Ssa.Module)
    (files : FileSystem) : FileSystem × Except TaskError Bytes :=
  match settings.format with
  | .ssa => (files, textOf settings path .ssa module)
  | .llvm => (files, textOf settings path (.llvm settings.triple) module)
  | .object =>
    match textOf settings path (.llvm settings.triple) module with
    | .error error => (files, .error error)
    | .ok text =>
      let (files, object) := ObjectFile.make workshop files settings.llc settings.triple text
      (files, object.mapError fun error => .emitting path settings.emit (.emitter error))

variable {workshop : Workshop} {module : Ssa.Module} {progress : Progress}

end ExprLang.Task

namespace ExprLang

/-! ## Texts of source files -/

namespace Task

variable {workshop : Workshop} {settings : Settings} {path : String} {module : Ssa.Module}
  {progress : Progress} {format : TextFormat}

def text? (entry path : String) (format : TextFormat) (files : FileSystem) : Option Bytes :=
  match moduleOf entry path files with
  | .error _ => none
  | .ok module => (format.emit module).toOption.map Bytes.ofString

/-- A task ends well if and only if there is a text, and then its progress has to do with it. -/
def EndsWith (outcome : Except TaskError Unit × Progress) (text : Option Bytes)
    (wanted : Bytes → Progress → Prop) : Prop :=
  match text with
  | some text => outcome.1 = .ok () ∧ wanted text outcome.2
  | none => ∃ error, outcome.1 = .error error

variable {command : FileCommand} {output : OutputFormat}

def deliver (workshop : Workshop) (settings : Settings) (path : String) (module : Ssa.Module) :
    Task Unit := do
  let content ← emit workshop settings path module
  prepareDirectory settings.output
  writeFile settings.output content
  report settings ("wrote " ++ settings.output ++ " (" ++ counted content.length "bytes" ++ ")")

/-- Reading, parsing, checking, generating code or emitting fails for a source file. -/
inductive Fails (workshop : Workshop) (files : FileSystem) (settings : Settings) (path : String) :
    Prop
  | reading {error : FileError} (failed : files.read path = .error error)
  | parsing {source : Bytes} {errors : SyntaxErrors} (read : files.read path = .ok source)
      (failed : parseProgram source = .error errors)
  | checking {source : Bytes} {definitions : List (Definition Position)} {error : TypeError}
      (read : files.read path = .ok source) (parsed : parseProgram source = .ok definitions)
      (failed : (Definition.checkAll .standard definitions).1 = .error error)
  | generating {source : Bytes} {definitions : List (Definition Position)}
      {functions : List TypedDefinition} {failure : CompileFailure}
      (read : files.read path = .ok source) (parsed : parseProgram source = .ok definitions)
      (checked : (Definition.checkAll .standard definitions).1 = .ok functions)
      (failed : compileProgram (Path.stem path) .standard settings.entry functions =
        .error failure)
  | emitting {module : Ssa.Module} {error : TaskError}
      (compiled : moduleOf settings.entry path files = .ok module)
      (failed : (emitted workshop settings path module files).2 = .error error)

theorem Fails.split {files : FileSystem} (fails : Fails workshop files settings path) :
    (∃ error, moduleOf settings.entry path files = .error error) ∨
      ∃ module error, moduleOf settings.entry path files = .ok module ∧
        (emitted workshop settings path module files).2 = .error error := by
  cases fails with
  | @reading error failed =>
      apply Or.inl
      apply Exists.intro (.reading path error)
      simp only [moduleOf, functionsOf, definitionsOf, failed]
      rfl
  | @parsing source errors read failed =>
      apply Or.inl
      apply Exists.intro (.parsing path errors)
      simp only [moduleOf, functionsOf, definitionsOf, read, Except.mapError, bind, Except.bind,
        failed]
  | @checking source definitions error read parsed failed =>
      apply Or.inl
      apply Exists.intro (.checking path error)
      simp only [moduleOf, functionsOf, definitionsOf, read, Except.mapError, bind, Except.bind,
        parsed, failed]
  | @generating source definitions functions failure read parsed checked failed =>
      apply Or.inl
      apply Exists.intro (.generating path failure.error)
      simp only [moduleOf, functionsOf, definitionsOf, read, Except.mapError, bind, Except.bind,
        parsed, checked, failed]
  | emitting compiled failed => exact .inr ⟨_, _, compiled, failed⟩

end Task

/-! ## Commands -/

namespace CommandLine

variable {around : Surroundings} {command : FileCommand} {settings : Settings} {path : String}

/-- Only reports come in front of the work of a command, and the status tells how it ended. -/
theorem perform_eq : ∃ lines, ∀ result progress,
    StateT.run (ExceptT.run (task around command settings path))
      ⟨around.files, [], lines⟩ = (result, progress) →
    (perform around command settings path).status = (if result.isOk then 0 else 1) ∧
    (perform around command settings path).output = progress.output ∧
    (perform around command settings path).files = progress.files := by
  rcases @Task.gives_report settings (command.name ++ " " ++ path)
    ⟨around.files, [], []⟩ with ⟨lines, reported⟩
  apply Exists.intro lines
  intro result progress done
  have whole : StateT.run (ExceptT.run (do
      Task.report settings (command.name ++ " " ++ path)
      task around command settings path)) ⟨around.files, [], []⟩ = (result, progress) := by
    rw [Task.run_bind_ok reported]
    exact done
  rw [perform, whole]
  cases result with
  | error error => exact ⟨rfl, rfl, rfl⟩
  | ok value => exact ⟨rfl, rfl, rfl⟩

/-- The arguments of a command name one source file, and the settings that are loaded for it are
valid with what the flags change. -/
structure Starts (around : Surroundings) (command : FileCommand) (arguments : List String)
    (flags : Flags) (path : String) (loaded : Settings) : Prop where
  read : Flags.read command.flags arguments = .done flags
  file : flags.arguments = [path]
  load : Settings.load around.readers around.files around.environment (flags.text "config") path =
    .ok loaded
  valid : (applyFlags flags loaded).validate = .ok ()

theorem Starts.run_eq {arguments : List String} {flags : Flags} {loaded : Settings}
    (starts : Starts around command arguments flags path loaded) :
    run around (command.name :: arguments) =
      perform around command (applyFlags flags loaded) path := by
  have named : FileCommand.ofName? command.name = some command := by
    cases command <;> rfl
  rw [run, named]
  dsimp only
  rw [runFileCommand, starts.read]
  dsimp only
  rw [starts.file]
  dsimp only
  rw [runOnFile, starts.load]
  dsimp only
  rw [starts.valid]

/-- A command succeeds if and only if its task ends with a text. -/
theorem Starts.outcome {arguments : List String} {flags : Flags} {loaded : Settings}
    {text : Option Bytes} {wanted : Bytes → Progress → Prop}
    (starts : Starts around command arguments flags path loaded)
    (ends : ∀ lines, Task.EndsWith (StateT.run (ExceptT.run
      (task around command (applyFlags flags loaded) path)) ⟨around.files, [], lines⟩)
      text wanted) :
    ((run around (command.name :: arguments)).status = 0 ↔ text.isSome = true) ∧
      ∀ found, text = some found → ∃ progress, wanted found progress ∧
        (run around (command.name :: arguments)).output = progress.output ∧
        (run around (command.name :: arguments)).files = progress.files := by
  rcases @perform_eq around command (applyFlags flags loaded) path with ⟨lines, performed⟩
  rw [starts.run_eq]
  have ended := ends lines
  generalize StateT.run (ExceptT.run (task around command (applyFlags flags loaded) path))
    ⟨around.files, [], lines⟩ = final at performed ended
  rcases performed final.1 final.2 rfl with ⟨status, output, files⟩
  rw [status, output, files]
  cases text with
  | none =>
      rcases ended with ⟨error, failed⟩
      rw [failed]
      exact ⟨by simp [Except.isOk, Except.toBool], nofun⟩
  | some text =>
      rcases ended with ⟨done, reached⟩
      rw [done]
      apply And.intro (by simp [Except.isOk, Except.toBool])
      intro found same
      cases same
      exact ⟨final.2, reached, rfl, rfl⟩

end CommandLine

end ExprLang
