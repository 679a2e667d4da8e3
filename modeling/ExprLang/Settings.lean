import ExprLang.Text.Quoted

/-!
# Settings

The settings of one run of the compiler: where the result goes and in which form, which
function the program starts with, and what helps to make an object. Settings are collected
from several places, so they may hold anything; `Settings.validate` reports everything that is
wrong with them at once.
-/

namespace ExprLang

inductive OutputFormat where
  | object
  | llvm
  | ssa
deriving DecidableEq, Repr

namespace OutputFormat

def name : OutputFormat → String
  | object => "obj"
  | llvm => "llvm"
  | ssa => "ssa"

def all : List OutputFormat :=
  [object, llvm, ssa]

def ofName? (name : String) : Option OutputFormat :=
  all.find? fun format => format.name == name

end OutputFormat

/-- The settings of one run, with their defaults. An empty triple stands for the machine on
which the compiler runs. -/
structure Settings where
  output : String := "main.o"
  entry : String := "main"
  emit : String := OutputFormat.object.name
  llc : String := "llc"
  triple : String := ""
  verbose : Bool := false
deriving DecidableEq, Repr

inductive TextSetting where
  | output
  | entry
  | emit
  | llc
  | triple
deriving DecidableEq, Repr

namespace TextSetting

def name : TextSetting → String
  | output => "output"
  | entry => "entry"
  | emit => "emit"
  | llc => "llc"
  | triple => "triple"

def all : List TextSetting :=
  [output, entry, emit, llc, triple]

end TextSetting

namespace Settings

def setText (settings : Settings) : TextSetting → String → Settings
  | .output, text => { settings with output := text }
  | .entry, text => { settings with entry := text }
  | .emit, text => { settings with emit := text }
  | .llc, text => { settings with llc := text }
  | .triple, text => { settings with triple := text }

/-! ## Validation -/

inductive Issue where
  | unknownFormat (name : String)
  | noOutput
  | badEntry (name : String)
  | noLlc
  | blankInTriple (triple : String)
deriving DecidableEq, Repr

def Issue.message : Issue → String
  | unknownFormat name =>
    "emit must be one of " ++ ", ".intercalate (OutputFormat.all.map OutputFormat.name) ++
      "; got " ++ Text.quote name
  | noOutput => "output must be provided"
  | badEntry name => "entry " ++ Text.quote name ++ " is not a valid function name"
  | noLlc => "llc must be provided when emitting objects"
  | blankInTriple triple => "triple " ++ Text.quote triple ++ " must not contain whitespace"

def isNameLetter (character : Char) : Bool :=
  character == '_' || character.isAlpha

/-- Whether a text has the form of a function name: letters, digits and underscores, with no
digit in front. -/
def isFunctionName (text : String) : Bool :=
  match text.toList with
  | [] => false
  | first :: rest =>
    isNameLetter first && rest.all fun character => isNameLetter character || character.isDigit

def issues (settings : Settings) : List Issue :=
  (if (OutputFormat.ofName? settings.emit).isNone then [Issue.unknownFormat settings.emit]
    else []) ++
  (if settings.output == "" then [Issue.noOutput] else []) ++
  (if isFunctionName settings.entry then [] else [Issue.badEntry settings.entry]) ++
  (if settings.emit == OutputFormat.object.name && settings.llc == "" then [Issue.noLlc] else []) ++
  (if settings.triple.toList.any (fun c => c == ' ' || c == '\t' || c == '\n') then
    [Issue.blankInTriple settings.triple] else [])

/-- Settings that are wrong, with at least one reason. -/
structure ValidationError where
  issues : List Issue
  issues_ne_nil : issues ≠ []

def ValidationError.message (error : ValidationError) : String :=
  "config validation failed:" ++
    String.join (error.issues.map fun issue => "\n- " ++ issue.message)

def validate (settings : Settings) : Except ValidationError Unit :=
  if wrong : settings.issues = [] then .ok () else .error ⟨settings.issues, wrong⟩

def format (settings : Settings) : OutputFormat :=
  (OutputFormat.ofName? settings.emit).getD .object

end Settings

end ExprLang
