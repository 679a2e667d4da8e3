import ExprLang.Text.Bytes
import ExprLang.Text.Decimal

/-!
# File systems

A file system is a value: every operation gives back the changed one, and what has not been
given back has not happened. Entries are found by the names on the way from the root. A path
is followed part by part from the root or from the current directory, and every part but the
last one has to be a directory.
-/

/-!
## Path texts

Operations on the text of a path that look at no file: its parts lie between slashes, a single
dot stands for the place itself and two dots for the one above.
-/

namespace ExprLang.Path

def here : String := "."

def above : String := ".."

def cut : List Char → List (List Char)
  | [] => [[]]
  | character :: rest =>
    if character == '/' then [] :: cut rest
    else
      match cut rest with
      | [] => [[character]]
      | part :: others => (character :: part) :: others

/-- The parts of a path between the slashes; some may be empty. -/
def parts (path : String) : List String :=
  (cut path.toList).map String.ofList

def isAbsolute (path : String) : Bool :=
  path.toList.head? == some '/'

/-- Adds a part behind others, of which the last one stands first. What two dots undo is
dropped; nothing lies above the root. -/
def pushPart (absolute : Bool) (before : List String) (part : String) : List String :=
  if part == "" || part == here then before
  else if part == above then
    match before with
    | last :: rest => if last == above then part :: before else rest
    | [] => if absolute then [] else [part]
  else part :: before

/-- The shortest path that leads to the same place as long as every part is a directory. -/
def clean (path : String) : String :=
  let absolute := isAbsolute path
  let kept := "/".intercalate ((parts path).foldl (pushPart absolute) []).reverse
  if absolute then "/" ++ kept else if kept == "" then here else kept

def upToSlash (path : String) : String :=
  String.ofList (path.toList.reverse.dropWhile (· != '/')).reverse

def directory (path : String) : String :=
  clean (upToSlash path)

def trimSlashes (path : String) : String :=
  String.ofList (path.toList.reverse.dropWhile (· == '/')).reverse

def lastPart (path : String) : String :=
  if path == "" then here
  else if trimSlashes path == "" then "/"
  else (parts (trimSlashes path)).getLastD ""

def withoutExtension (text : String) : String :=
  let characters := text.toList.reverse
  match characters.dropWhile (· != '.') with
  | [] => text
  | _ :: kept => String.ofList kept.reverse

/-- The name of a file without its extension. A path that ends in a slash has no extension. -/
def stem (path : String) : String :=
  if path.endsWith "/" then lastPart path else withoutExtension (lastPart path)

def join (directory name : String) : String :=
  clean (directory ++ "/" ++ name)

end ExprLang.Path

/-! ## Files -/

namespace ExprLang

/-- A place: the names on the way from the root. -/
abbrev Location := List String

def Location.path (location : Location) : String :=
  "/" ++ "/".intercalate location

inductive Entry where
  | file (content : Bytes) (isExecutable : Bool)
  | directory
deriving DecidableEq, Repr

/-- Entries by their places, and the current directory. The root is always a directory. -/
structure FileSystem where
  entries : List (Location × Entry)
  current : Location
deriving DecidableEq, Repr

/-! ## Errors -/

inductive FileProblem where
  | missing
  | isDirectory
  | notDirectory
  | taken
  | exhausted
deriving DecidableEq, Repr

def FileProblem.message : FileProblem → String
  | missing => "no such file or directory"
  | isDirectory => "is a directory"
  | notDirectory => "not a directory"
  | taken => "file exists"
  | exhausted => "file already exists"

inductive FileAction where
  | opening
  | reading
  | inspecting
  | makingDirectory
  | makingTemporary
deriving DecidableEq, Repr

def FileAction.name : FileAction → String
  | opening => "open"
  | reading => "read"
  | inspecting => "stat"
  | makingDirectory => "mkdir"
  | makingTemporary => "mkdirtemp"

structure FileError where
  action : FileAction
  path : String
  problem : FileProblem
deriving DecidableEq, Repr

def FileError.message (error : FileError) : String :=
  error.action.name ++ " " ++ error.path ++ ": " ++ error.problem.message

namespace FileSystem

/-! ## Entries -/

def entry? (system : FileSystem) (location : Location) : Option Entry :=
  if location.isEmpty then some .directory
  else (system.entries.find? fun entry => entry.1 == location).map Prod.snd

/-- Puts an entry at a place, in front of or instead of what lies there. -/
def put (system : FileSystem) (location : Location) (entry : Entry) : FileSystem :=
  { system with
    entries := (location, entry) :: system.entries.filter fun other => other.1 != location }

def remove (system : FileSystem) (location : Location) : FileSystem :=
  { system with
    entries := system.entries.filter fun entry => !location.isPrefixOf entry.1 }

def way (location : Location) : List Location :=
  (List.range (location.length + 1)).map location.take

/-- Makes a place a directory, unless something lies there. -/
def ensureDirectory (system : FileSystem) (location : Location) : FileSystem :=
  if (system.entry? location).isSome then system else system.put location .directory

def putFile (system : FileSystem) (location : Location) (content : Bytes)
    (isExecutable : Bool) : FileSystem :=
  ((way location.dropLast).foldl ensureDirectory system).put location (.file content isExecutable)

def empty (current : Location) : FileSystem :=
  (way current).foldl ensureDirectory ⟨[], current⟩

def withFiles (system : FileSystem) (files : List (String × Bytes × Bool)) : FileSystem :=
  files.foldl (fun system (path, content, isExecutable) =>
    system.putFile (system.current ++ Path.parts path) content isExecutable) system

/-! ## Paths -/

/-- Follows the parts of a path. Only at a directory can a path go on. -/
def follow (system : FileSystem) (location : Location) :
    List String → Except FileProblem Location
  | [] => .ok location
  | part :: rest =>
    match system.entry? location with
    | none => .error .missing
    | some (.file _ _) => .error .notDirectory
    | some .directory =>
      if part == "" || part == Path.here then system.follow location rest
      else if part == Path.above then system.follow location.dropLast rest
      else system.follow (location ++ [part]) rest

/-- The place to which a path leads; nothing need be there. The way to the current directory
comes in front of a path that does not start at the root. -/
def locate (system : FileSystem) (path : String) : Except FileProblem Location :=
  if path == "" then .error .missing
  else
    system.follow []
      ((if Path.isAbsolute path then [] else system.current) ++ Path.parts path)

def find (system : FileSystem) (path : String) : Except FileProblem Entry := do
  match system.entry? (← system.locate path) with
  | some entry => return entry
  | none => throw .missing

def isFile (system : FileSystem) (path : String) : Bool :=
  match system.find path with
  | .ok (.file _ _) => true
  | _ => false

/-! ## Operations -/

/-- Reads a file. A directory can be opened but not read. -/
def read (system : FileSystem) (path : String) : Except FileError Bytes :=
  match system.find path with
  | .ok (.file content _) => .ok content
  | .ok .directory => .error ⟨.reading, path, .isDirectory⟩
  | .error problem => .error ⟨.opening, path, problem⟩

def write (system : FileSystem) (path : String) (content : Bytes) :
    Except FileError FileSystem :=
  match system.locate path with
  | .error problem => .error ⟨.opening, path, problem⟩
  | .ok location =>
    match system.entry? location with
    | some .directory => .error ⟨.opening, path, .isDirectory⟩
    | some (.file _ isExecutable) => .ok (system.put location (.file content isExecutable))
    | none => .ok (system.put location (.file content false))

/-- Makes a directory; the one in which it lies must be there. -/
def makeDirectory (system : FileSystem) (path : String) : Except FileError FileSystem :=
  match system.locate (Path.trimSlashes path) with
  | .error problem => .error ⟨.makingDirectory, path, problem⟩
  | .ok location =>
    if (system.entry? location).isSome then .error ⟨.makingDirectory, path, .taken⟩
    else .ok (system.put location .directory)

/-- Makes a directory and those on the way to it, as far as they are missing. The path of a
parent keeps its slash. What was made before a failure stays. -/
def makeDirectories (system : FileSystem) (path : String) : FileSystem × Option FileError :=
  climb path.length system path
where
  /-- Goes up to the first directory that is there. -/
  climb : (fuel : Nat) → FileSystem → String → FileSystem × Option FileError
    | 0, system, _ => (system, none)
    | fuel + 1, system, path =>
      match system.find path with
      | .ok .directory => (system, none)
      | .ok (.file _ _) => (system, some ⟨.makingDirectory, path, .notDirectory⟩)
      | .error _ =>
        let parent := Path.upToSlash (Path.trimSlashes path)
        let (system, failure) := if parent == "" then (system, none) else climb fuel system parent
        match failure with
        | some error => (system, some error)
        | none =>
          match system.makeDirectory path with
          | .ok system => (system, none)
          | .error error => (system, some error)

/-- Removes what a path leads to and everything below it, if anything is there. -/
def removeAll (system : FileSystem) (path : String) : FileSystem :=
  match system.locate path with
  | .ok location => system.remove location
  | .error _ => system

/-! ## Temporary directories -/

/-- The directory for temporary files: the one that the environment names, or the usual one. -/
def temporaryDirectory (environment : List (String × String)) : String :=
  match environment.find? fun entry => entry.1 == "TMPDIR" with
  | some (_, path) => if path == "" then "/tmp" else path
  | none => "/tmp"

def mostTries : Nat := 10000

/-- Makes a new directory in another. The first of some numbers that makes a name which is not
taken is put behind the start of the name. -/
def makeTemporary (system : FileSystem) (directory start : String) (numbers : Nat → UInt32) :
    Except FileError (FileSystem × String) :=
  choose mostTries 0
where
  /-- A directory and what a name in it starts with. -/
  stem : String :=
    directory ++ (if directory.toList.getLast? == some '/' then "" else "/") ++ start
  /-- Goes on until a name is not taken. -/
  choose : (tries : Nat) → (index : Nat) → Except FileError (FileSystem × String)
    | 0, _ => .error ⟨.makingTemporary, stem ++ "*", .exhausted⟩
    | tries + 1, index =>
      let path := stem ++ Text.decimal (numbers index).toNat
      match system.makeDirectory path with
      | .ok later => .ok (later, path)
      | .error error =>
        match error.problem, system.find directory with
        | .taken, _ => choose tries (index + 1)
        | .missing, .error .missing => .error ⟨.inspecting, directory, .missing⟩
        | _, _ => .error error

/-! ## Views -/

/-- The files that are new or have changed since `before`, with their contents. -/
def changes (before after : FileSystem) : List (Location × Bytes) :=
  after.entries.filterMap fun (location, entry) =>
    match entry, before.entry? location with
    | .directory, _ => none
    | .file content _, some (.file old _) =>
      if content == old then none else some (location, content)
    | .file content _, _ => some (location, content)

def pathFrom? (directory location : Location) : Option String :=
  if directory.isPrefixOf location then
    some ("/".intercalate (location.drop directory.length))
  else none

def changedFiles (before after : FileSystem) : List (String × Bytes) :=
  (before.changes after).filterMap fun (location, content) =>
    (pathFrom? after.current location).map fun path => (path, content)

end FileSystem

end ExprLang
