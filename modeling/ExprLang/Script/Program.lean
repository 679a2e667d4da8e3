import ExprLang.ObjectFile
import ExprLang.Script.Execution

/-!
# Scripts as programs

A machine on which the only programs are scripts, with which the making of objects can be tried
out. Nothing else depends on it: whatever is said about the making of objects holds with any
programs. A name without a slash is looked for in the directories of programs; what is found
there, or at the path, has to be executable and a script.
-/

namespace ExprLang.Script

inductive StartProblem where
  | missing
  | notDirectory
  | denied
  | badFormat
deriving DecidableEq, Repr

def StartProblem.message : StartProblem → String
  | missing => FileProblem.missing.message
  | notDirectory => FileProblem.notDirectory.message
  | denied => "permission denied"
  | badFormat => "exec format error"

inductive Failure where
  | notFound (name : String)
  | notStarted (path : String) (problem : StartProblem)
  | exitStatus (status : Nat)
deriving DecidableEq, Repr

def Failure.message : Failure → String
  | notFound name => "exec: " ++ Text.quote name ++ ": executable file not found in $PATH"
  | notStarted path problem => "fork/exec " ++ path ++ ": " ++ problem.message
  | exitStatus status => "exit status " ++ Text.decimal status

def directories : List String :=
  ["/usr/local/bin", "/usr/bin", "/bin"]

def scriptReaders : List String :=
  ["sh", "bash", "dash"]

def reader? (script : String) : Option String :=
  match script.toList with
  | '#' :: '!' :: rest =>
    some (Path.lastPart (String.ofList (rest.takeWhile (· != '\n'))).trimAscii.toString)
  | _ => none

def commandAt (files : FileSystem) (path : String) : Except StartProblem Command :=
  match files.find path with
  | .error .notDirectory => .error .notDirectory
  | .error _ => .error .missing
  | .ok .directory => .error .denied
  | .ok (.file _ false) => .error .denied
  | .ok (.file content true) =>
    match content.toString? with
    | none => .error .badFormat
    | some script =>
      match reader? script with
      | none => .error .badFormat
      | some reader =>
        if scriptReaders.contains reader then .ok ((parse? script).getD .nothing)
        else .error .missing

/-- The path of a program: itself, or where its name is found. -/
def path? (files : FileSystem) (name : String) : Option String :=
  if name.toList.contains '/' then some name
  else
    (directories.map fun directory => directory ++ "/" ++ name).find? fun path =>
      match files.find path with
      | .ok (.file _ isExecutable) => isExecutable
      | _ => false

def programs : Programs := fun files name arguments =>
  let unstarted (failure : Failure) : Program.Outcome := ⟨files, [], some failure.message⟩
  match path? files name with
  | none => unstarted (.notFound name)
  | some path =>
    match commandAt files path with
    | .error problem => unstarted (.notStarted path problem)
    | .ok command =>
      let state := run files path arguments command
      ⟨state.files, state.errors,
        if state.status = 0 then none else some (Failure.exitStatus state.status).message⟩

/-- The programs that are always there: one that succeeds and one that fails. -/
def basicPrograms : List (Location × String) :=
  [(["bin", "true"], "#!/bin/sh\nexit 0\n"), (["bin", "false"], "#!/bin/sh\nexit 1\n")]

/-- A file system with a current directory in which nothing lies, a directory for temporary files,
and the programs that are always there. -/
def workplace (current : Location) : FileSystem :=
  basicPrograms.foldl
    (fun files (location, script) => files.putFile location (Bytes.ofString script) true)
    ((FileSystem.empty current).ensureDirectory ["tmp"])

end ExprLang.Script
