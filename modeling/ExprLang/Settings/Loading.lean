import ExprLang.FileSystem
import ExprLang.Settings

/-!
# Loading settings

Settings come from the defaults, then from a file and then from the environment. The file is
the one that is asked for, or the one next to the source file if there is such a file. How a
document is decoded, and when an environment variable counts as set or as true, is a matter of
the libraries that are used for it, so that it is given from outside.
-/

namespace ExprLang.Settings

/-- How decoding ends where a document is not taken over as a whole: there is no document, or
something is wrong with it. -/
inductive DecodeEnd where
  | noDocument
  | failed (message : Bytes)

/-- The libraries that settings are read with. A decoder changes settings by what it reads from a
file, also before it fails; the other two look at an environment variable. -/
structure Readers where
  decode : Settings → Except FileError Bytes → Settings × Option DecodeEnd
  text? : List (String × String) → String → Option String
  isTrue : List (String × String) → String → Bool

def fileName : String := "wayto.yaml"

inductive LoadError where
  | unopened (error : FileError)
  | undecoded (path : String) (message : Bytes)

def LoadError.message : LoadError → Bytes
  | unopened error => Bytes.ofString ("config: " ++ error.message)
  | undecoded path message => Bytes.ofString ("config: parse " ++ path ++ ": ") ++ message

section Reading

variable (readers : Readers)

/-- Takes over the settings in a document, if there is one. -/
def decode (settings : Settings) (document : Except FileError Bytes) : Settings × Option Bytes :=
  match readers.decode settings document with
  | (settings, some (.failed message)) => (settings, some message)
  | (settings, some .noDocument) | (settings, none) => (settings, none)

def loadFile (settings : Settings) (files : FileSystem) (path : String) :
    Except LoadError Settings :=
  match files.find path with
  | .error problem => .error (.unopened ⟨.opening, path, problem⟩)
  | .ok _ =>
    match decode readers settings (files.read path) with
    | (settings, none) => .ok settings
    | (_, some message) => .error (.undecoded path message)

/-- The settings file next to a source file, if there is one. -/
def findFile? (files : FileSystem) (source : String) : Option String :=
  let path := Path.join (Path.directory source) fileName
  if files.isFile path then some path else none

def variableName (name : String) : String :=
  "WAYTO_" ++ name.toUpper

def applyEnvironment (environment : List (String × String)) (settings : Settings) : Settings :=
  let settings := TextSetting.all.foldl (fun settings setting =>
    match readers.text? environment (variableName setting.name) with
    | some text => settings.setText setting text
    | none => settings) settings
  match readers.text? environment (variableName "verbose") with
  | some _ => { settings with verbose := readers.isTrue environment (variableName "verbose") }
  | none => settings

/-- The settings for a source file. An empty path asks for no particular settings file. -/
def load (files : FileSystem) (environment : List (String × String)) (path source : String) :
    Except LoadError Settings :=
  let chosen :=
    if path != "" then some path
    else if source == "" then none
    else findFile? files source
  match chosen with
  | none => .ok (applyEnvironment readers environment {})
  | some path => (loadFile readers {} files path).map (applyEnvironment readers environment)

end Reading

end ExprLang.Settings
