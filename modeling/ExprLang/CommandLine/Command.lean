import ExprLang.Text.Quoted

/-!
# Commands

The commands of the program, the flags they know and the texts that explain them.
-/

namespace ExprLang

/-!
## Flags

Arguments that start with a dash set flags, up to the first one that does not or to a double
dash. One dash is as good as two. A flag with a text takes it from behind an equals sign or
from the next argument; a switch needs nothing. Asking for help ends the reading.
-/

inductive FlagKind where
  | switch
  | text
deriving DecidableEq, Repr

structure Flag where
  name : String
  kind : FlagKind
  summary : String
deriving DecidableEq, Repr

inductive FlagError where
  | badSyntax (argument : String)
  | unknown (name : String)
  | noText (name : String)
  | badSwitch (name : String) (text : String)
deriving DecidableEq, Repr

def FlagError.message : FlagError → String
  | badSyntax argument => "bad flag syntax: " ++ argument
  | unknown name => "flag provided but not defined: -" ++ name
  | noText name => "flag needs an argument: -" ++ name
  | badSwitch name text =>
    "invalid boolean value " ++ Text.quote text ++ " for -" ++ name ++ ": parse error"

/-- The flags that were set, last one first, and the other arguments. -/
structure Flags where
  switches : List (String × Bool)
  texts : List (String × String)
  arguments : List String
deriving DecidableEq, Repr

inductive FlagReading where
  | done (flags : Flags)
  | help
  | failed (error : FlagError)
deriving DecidableEq, Repr

namespace Flags

/-- Whether a switch is on; it is off unless it is set. -/
def switch (flags : Flags) (name : String) : Bool :=
  match flags.switches.find? fun entry => entry.1 == name with
  | some entry => entry.2
  | none => false

/-- The text of a flag; it is empty unless it is set. -/
def text (flags : Flags) (name : String) : String :=
  match flags.texts.find? fun entry => entry.1 == name with
  | some entry => entry.2
  | none => ""

def setSwitch (flags : Flags) (name : String) (value : Bool) : Flags :=
  { flags with switches := (name, value) :: flags.switches }

def setText (flags : Flags) (name text : String) : Flags :=
  { flags with texts := (name, text) :: flags.texts }

def truth? (text : String) : Option Bool :=
  if ["1", "t", "T", "true", "TRUE", "True"].contains text then some true
  else if ["0", "f", "F", "false", "FALSE", "False"].contains text then some false
  else none

inductive Argument where
  | plain
  | endOfFlags
  | malformed
  | flag (name : String) (text : Option String)
deriving DecidableEq, Repr

/-- Splits a flag at its first equals sign, which is never its first character. -/
def splitFlag (characters : List Char) : Argument :=
  let name := characters.takeWhile (· != '=')
  match characters.drop name.length with
  | [] => .flag (String.ofList name) none
  | _ :: text => .flag (String.ofList name) (some (String.ofList text))

def classifyName : List Char → Argument
  | [] | '-' :: _ | '=' :: _ => .malformed
  | characters => splitFlag characters

def classify (argument : String) : Argument :=
  match argument.toList with
  | ['-', '-'] => .endOfFlags
  | '-' :: '-' :: characters => classifyName characters
  | ['-'] => .plain
  | '-' :: characters => classifyName characters
  | _ => .plain

/-- Reads arguments, adding to the flags that are already set. -/
def readFrom (known : List Flag) (flags : Flags) : List String → FlagReading
  | [] => .done { flags with arguments := [] }
  | argument :: rest =>
    match classify argument with
    | .plain => .done { flags with arguments := argument :: rest }
    | .endOfFlags => .done { flags with arguments := rest }
    | .malformed => .failed (.badSyntax argument)
    | .flag name text =>
      match known.find? fun flag => flag.name == name with
      | none => if name == "help" || name == "h" then .help else .failed (.unknown name)
      | some flag =>
        match flag.kind, text with
        | .switch, none => readFrom known (flags.setSwitch name true) rest
        | .switch, some text =>
          match truth? text with
          | some value => readFrom known (flags.setSwitch name value) rest
          | none => .failed (.badSwitch name text)
        | .text, some text => readFrom known (flags.setText name text) rest
        | .text, none =>
          match rest with
          | text :: rest => readFrom known (flags.setText name text) rest
          | [] => .failed (.noText name)

def read (known : List Flag) (arguments : List String) : FlagReading :=
  readFrom known ⟨[], [], []⟩ arguments

end Flags

/-- The lines about a flag. A name of one letter leaves room for the summary. -/
def Flag.describe (flag : Flag) : String :=
  let heading := "  -" ++ flag.name ++ match flag.kind with
    | .switch => ""
    | .text => " string"
  heading ++ (if heading.length ≤ 4 then "\t" else "\n    \t") ++ flag.summary ++ "\n"

def Flag.describeAll (flags : List Flag) : String :=
  String.join ((flags.mergeSort fun left right => left.name ≤ right.name).map Flag.describe)

/-! ## Commands -/

inductive FileCommand where
  | lex
  | ast
  | type
  | ssa
  | llvm
  | build
  | run
deriving DecidableEq, Repr

namespace FileCommand

def all : List FileCommand :=
  [lex, ast, type, ssa, llvm, build, run]

def name : FileCommand → String
  | lex => "lex"
  | ast => "ast"
  | type => "type"
  | ssa => "ssa"
  | llvm => "llvm"
  | build => "build"
  | run => "run"

def ofName? (name : String) : Option FileCommand :=
  all.find? fun command => command.name == name

def summary : FileCommand → String
  | lex => "Print the tokens of a .wt file"
  | ast => "Print the syntax tree of a .wt file"
  | type => "Type-check a .wt file and print function signatures"
  | ssa => "Print the SSA IR of a .wt file"
  | llvm => "Print the LLVM IR of a .wt file"
  | build => "Compile a .wt file to an object file"
  | run => "Compile and execute a .wt file on the SSA interpreter"

def form : FileCommand → String
  | lex => "wayto lex [-v] <file>"
  | ast => "wayto ast [-v] <file>"
  | type => "wayto type [-v] <file>"
  | ssa => "wayto ssa [-v] [-config file] <file>"
  | llvm => "wayto llvm [-v] [-config file] <file>"
  | build => "wayto build [-o output] [-emit obj|llvm|ssa] [-config file] [-v] <file>"
  | run => "wayto run [-v] [-config file] <file>"

def commonFlags : List Flag :=
  [⟨"v", .switch, "Show verbose compilation details"⟩,
   ⟨"config", .text, "Config file (default: wayto.yaml next to the source file)"⟩]

def outputFlags : List Flag :=
  [⟨"o", .text, "Output file path (default: main.o)"⟩,
   ⟨"emit", .text, "Output format: obj, llvm or ssa (default: obj)"⟩]

def flags : FileCommand → List Flag
  | build => commonFlags ++ outputFlags
  | lex | ast | type | ssa | llvm | run => commonFlags

def usage (command : FileCommand) : String :=
  "Usage: " ++ command.form ++ "\n" ++ command.summary ++ "\n\nFlags:\n" ++
    Flag.describeAll command.flags

end FileCommand

def sessionUsage : String :=
  "Usage: wayto repl\nStart an interactive session\n\nFlags:\n"

def programUsage : String :=
  "wayto - A small expression language compiled through SSA to native objects\n" ++
  "\n" ++
  "Usage:\n" ++
  "    wayto <command> [arguments]\n" ++
  "\n" ++
  "Commands:\n" ++
  "    lex <file>      Print the tokens of a .wt file\n" ++
  "    ast <file>      Print the syntax tree of a .wt file\n" ++
  "    type <file>     Type-check a .wt file and print function signatures\n" ++
  "    ssa <file>      Print the SSA IR of a .wt file\n" ++
  "    llvm <file>     Print the LLVM IR of a .wt file\n" ++
  "    build <file>    Compile a .wt file to an object file\n" ++
  "    run <file>      Compile and execute a .wt file on the SSA interpreter\n" ++
  "    repl            Start an interactive session\n" ++
  "    help            Show this help message\n" ++
  "\n" ++
  "Examples:\n" ++
  "    wayto run examples/sum.wt\n" ++
  "    wayto build -o out/sum.o sum.wt\n" ++
  "    wayto build -emit llvm -o sum.ll sum.wt\n" ++
  "    wayto type sum.wt\n" ++
  "\n" ++
  "Settings are read from wayto.yaml next to the source file and from\n" ++
  "WAYTO_* environment variables; flags take precedence.\n" ++
  "\n" ++
  "Use \"wayto <command> -h\" for more information about a command.\n"

end ExprLang
