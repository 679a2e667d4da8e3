import ExprLang.Emission
import ExprLang.FileSystem
import ExprLang.Text.Quoted

/-!
# Object files

An object file is made from the LLVM text of a module by another program. The text and the
object lie in a directory of their own, which is removed afterwards. What the other program does
with the files is not known here: the programs of the machine are given from outside.
-/

namespace ExprLang

/-- What a program leaves behind, and why it did not succeed if it did not. -/
structure Program.Outcome where
  files : FileSystem
  errors : Bytes
  failure : Option String

/-- The programs of a machine: what comes of running the one with a name or at a path, with some
arguments. -/
abbrev Programs :=
  FileSystem → (name : String) → (arguments : List String) → Program.Outcome

inductive ObjectError where
  | text (error : EmitError)
  | makingDirectory (error : FileError)
  | writingText (error : FileError)
  | running (program failure : String) (diagnostics : Bytes)
  | unreadable (error : FileError)

def ObjectError.message : ObjectError → Bytes
  | text error => Bytes.ofString error.message
  | makingDirectory error =>
    Bytes.ofString ("emit error: creating work directory: " ++ error.message)
  | writingText error => Bytes.ofString ("emit error: writing LLVM IR: " ++ error.message)
  | running program failure diagnostics =>
    Bytes.ofString ("emit error: running " ++ program ++ ": " ++ failure) ++
      if diagnostics.isEmpty then [] else Bytes.newline :: diagnostics
  | unreadable error => Bytes.ofString ("emit error: reading object: " ++ error.message)

/-- What objects are made with: the programs of the machine, the directory for temporary files, and
numbers that make names in it. -/
structure Workshop where
  programs : Programs
  temporary : String
  numbers : Nat → UInt32

namespace ObjectFile

/-- The program that is used: a usual one if none is named. -/
def programName (program : String) : String :=
  if program == "" then "llc" else program

def directoryStart : String := "wayto-llc-"

def textName : String := "module.ll"

def objectName : String := "module.o"

/-- What the other program is told. -/
def arguments (directory triple : String) : List String :=
  ["-O0", "-filetype=obj", "-relocation-model=pic"] ++
    (if triple == "" then [] else ["-mtriple=" ++ triple]) ++
    ["-o", Path.join directory objectName, Path.join directory textName]

def makeIn (programs : Programs) (files : FileSystem) (directory program triple : String)
    (text : Bytes) : FileSystem × Except ObjectError Bytes :=
  match files.write (Path.join directory textName) text with
  | .error error => (files, .error (.writingText error))
  | .ok files =>
    let outcome := programs files program (arguments directory triple)
    match outcome.failure with
    | some failure => (outcome.files, .error (.running program failure outcome.errors))
    | none =>
      (outcome.files,
        (outcome.files.read (Path.join directory objectName)).mapError .unreadable)

def make (workshop : Workshop) (files : FileSystem) (program triple : String) (text : Bytes) :
    FileSystem × Except ObjectError Bytes :=
  match files.makeTemporary workshop.temporary directoryStart workshop.numbers with
  | .error error => (files, .error (.makingDirectory error))
  | .ok (files, directory) =>
    let (files, object) :=
      makeIn workshop.programs files directory (programName program) triple text
    (files.removeAll directory, object)

end ObjectFile

end ExprLang
