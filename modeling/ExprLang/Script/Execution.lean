import ExprLang.FileSystem
import ExprLang.Script
import ExprLang.Text.Decimal

/-!
# Executing scripts

A script changes files and its own variables and parameters. What it writes goes to files, to
the errors that its caller reads, or nowhere. It ends with a status, of which zero means
success.
-/

namespace ExprLang.Script

inductive Sink where
  | nowhere
  | errors
  | file (path : String)
deriving DecidableEq, Repr

structure Streams where
  output : Sink
  errors : Sink
deriving DecidableEq, Repr

structure State where
  files : FileSystem
  name : String
  parameters : List String
  assigned : List (String × String)
  status : Nat
  errors : Bytes
  isOver : Bool

namespace State

/-! ## Words -/

/-- The value of a variable or parameter; what is not set is empty. -/
def value (state : State) (name : String) : String :=
  if name == "#" then Text.decimal state.parameters.length
  else if name == "@" || name == "*" then " ".intercalate state.parameters
  else if name == "?" then Text.decimal state.status
  else
    match name.toNat? with
    | some 0 => state.name
    | some (number + 1) => state.parameters.getD number ""
    | none =>
      match state.assigned.find? fun entry => entry.1 == name with
      | some entry => entry.2
      | none => ""

def set (state : State) (name value : String) : State :=
  { state with assigned := (name, value) :: state.assigned }

def pieceText (state : State) : Piece → String
  | .text _ text => text
  | .value _ name => state.value name

def text (state : State) (word : Word) : String :=
  String.join (word.map state.pieceText)

/-- Adds a piece to fields that are held last one first. A value that is not quoted is split
at its blanks. -/
def addPiece (state : State) (fields : List String) (piece : Piece) : List String :=
  let parts :=
    match piece with
    | .value false name => (state.value name).splitOn " "
    | _ => [state.pieceText piece]
  match fields, parts with
  | field :: fields, part :: parts => parts.reverse ++ (field ++ part) :: fields
  | fields, parts => parts.reverse ++ fields

def fields (state : State) (word : Word) : List String :=
  if word = [.value true "@"] then state.parameters
  else
    let isQuoted := word.any fun
      | .text quoted _ | .value quoted _ => quoted
    let fields := (word.foldl state.addPiece [""]).reverse
    if isQuoted then fields else fields.filter (· != "")

/-! ## Output -/

def write (state : State) (sink : Sink) (bytes : Bytes) : State :=
  match sink with
  | .nowhere => state
  | .errors => { state with errors := state.errors ++ bytes }
  | .file path =>
    let before := match state.files.read path with
      | .ok content => content
      | .error _ => []
    match state.files.write path (before ++ bytes) with
    | .ok files => { state with files }
    | .error _ => state

def openFile (state : State) (isAppending : Bool) (path : String) : State :=
  let kept := match state.files.read path with
    | .ok content => if isAppending then content else []
    | .error _ => []
  match state.files.write path kept with
  | .ok files => { state with files }
  | .error _ => state

def redirect (state : State) (streams : Streams) : Redirection → State × Streams
  | .outputTo isAppending target =>
    let path := state.text target
    (state.openFile isAppending path, { streams with output := .file path })
  | .errorsTo isAppending target =>
    let path := state.text target
    (state.openFile isAppending path, { streams with errors := .file path })
  | .outputToErrors => (state, { streams with output := streams.errors })
  | .errorsToOutput => (state, { streams with errors := streams.output })
  | .inputFrom _ => (state, streams)

/-- Follows redirections one after the other. -/
def redirectAll (state : State) (streams : Streams) : List Redirection → State × Streams
  | [] => (state, streams)
  | redirection :: rest =>
    let (state, streams) := state.redirect streams redirection
    state.redirectAll streams rest

end State

/-! ## Patterns -/

inductive PatternPart where
  | character (character : Char)
  | anyCharacter
  | anyText
deriving DecidableEq, Repr

/-- The pattern that a word stands for. Quoted characters stand for themselves. -/
def patternOf (state : State) (word : Word) : List PatternPart :=
  word.flatMap fun piece =>
    match piece with
    | .text false text =>
      text.toList.map fun c =>
        if c == '*' then .anyText else if c == '?' then .anyCharacter else .character c
    | piece => (state.pieceText piece).toList.map .character

def fits : List PatternPart → List Char → Bool
  | [], text => text.isEmpty
  | .character wanted :: pattern, c :: text => c == wanted && fits pattern text
  | .anyCharacter :: pattern, _ :: text => fits pattern text
  | .anyText :: pattern, [] => fits pattern []
  | .anyText :: pattern, c :: text => fits pattern (c :: text) || fits (.anyText :: pattern) text
  | _ :: _, [] => false
termination_by pattern text => pattern.length + text.length

/-! ## Commands -/

def numberComparison? : String → Option (Int → Int → Bool)
  | "-eq" => some fun left right => left == right
  | "-ne" => some fun left right => left != right
  | "-gt" => some fun left right => right < left
  | "-ge" => some fun left right => right ≤ left
  | "-lt" => some fun left right => left < right
  | "-le" => some fun left right => left ≤ right
  | _ => none

def test (files : FileSystem) : List String → Bool
  | [] => false
  | [text] => text != ""
  | ["!", text] => text == ""
  | ["-n", text] => text != ""
  | ["-z", text] => text == ""
  | ["-f", path] => files.isFile path
  | ["-e", path] => (files.find path).isOk
  | [left, "=", right] => left == right
  | [left, "!=", right] => left != right
  | [left, comparison, right] =>
    match numberComparison? comparison, left.toInt?, right.toInt? with
    | some holds, some left, some right => holds left right
    | _, _, _ => false
  | _ => false

def formatted : List Char → List String → List Char
  | '\\' :: 'n' :: rest, arguments => '\n' :: formatted rest arguments
  | '\\' :: 't' :: rest, arguments => '\t' :: formatted rest arguments
  | '\\' :: '\\' :: rest, arguments => '\\' :: formatted rest arguments
  | '%' :: '%' :: rest, arguments => '%' :: formatted rest arguments
  | '%' :: 's' :: rest, arguments =>
    (arguments.headD "").toList ++ formatted rest arguments.tail
  | '%' :: 'd' :: rest, arguments =>
    (arguments.headD "0").toList ++ formatted rest arguments.tail
  | character :: rest, arguments => character :: formatted rest arguments
  | [], _ => []

structure Printed where
  status : Nat
  output : Bytes := []
  errors : Bytes := []

/-- The contents of files one after the other. -/
def printFiles (files : FileSystem) (command : String) (select : Bytes → Bytes)
    (paths : List String) : Printed :=
  paths.foldl (fun printed path =>
    match files.read path with
    | .ok content => { printed with output := printed.output ++ select content }
    | .error error =>
      { printed with
        status := 1
        errors := printed.errors ++
          Bytes.ofString (command ++ ": " ++ path ++ ": " ++ error.problem.message ++ "\n") })
    { status := 0 }

def print? (files : FileSystem) (command : String) (arguments : List String) :
    Option Printed :=
  let line (arguments : List String) (ending : String) : Printed :=
    { status := 0, output := Bytes.ofString (" ".intercalate arguments ++ ending) }
  let firstLines (count : Nat) (content : Bytes) : Bytes := (content.lines.take count).flatten
  match command, arguments with
  | ":", _ | "true", _ => some { status := 0 }
  | "false", _ => some { status := 1 }
  | "echo", "-n" :: arguments => some (line arguments "")
  | "echo", arguments => some (line arguments "\n")
  | "printf", format :: arguments =>
    some { status := 0
           output := Bytes.ofString (String.ofList (formatted format.toList arguments)) }
  | "test", arguments => some { status := if test files arguments then 0 else 1 }
  | "[", arguments => some { status := if test files arguments.dropLast then 0 else 1 }
  | "cat", paths => some (printFiles files command id paths)
  | "head", "-n" :: count :: paths =>
    some (printFiles files command (firstLines (count.toNat?.getD 10)) paths)
  | "head", paths => some (printFiles files command (firstLines 10) paths)
  | _, _ => none

namespace State

def finish (state : State) (status : Nat) : State :=
  { state with status }

def copy (state : State) (source target : String) : State :=
  match state.files.read source with
  | .error _ => state.finish 1
  | .ok content =>
    match state.files.write target content with
    | .ok files => { state with files, status := 0 }
    | .error _ => state.finish 1

def call (state : State) (streams : Streams) (command : String) (arguments : List String) :
    State :=
  match command, arguments with
  | "exit", [] => { state with isOver := true }
  | "exit", status :: _ =>
    { state with status := status.toNat?.getD 2 % 256, isOver := true }
  | "shift", [] => { state with parameters := state.parameters.tail, status := 0 }
  | "shift", count :: _ =>
    { state with parameters := state.parameters.drop (count.toNat?.getD 1), status := 0 }
  | "cp", [source, target] => state.copy source target
  | "touch", paths =>
    (paths.foldl (fun state path => state.openFile true path) state).finish 0
  | command, arguments =>
    match print? state.files command arguments with
    | some printed =>
      ((state.write streams.output printed.output).write streams.errors printed.errors).finish
        printed.status
    | none =>
      (state.write streams.errors
        (Bytes.ofString (state.name ++ ": " ++ command ++ ": not found\n"))).finish 127

def assignment? : Word → Option (String × Word)
  | .text false text :: pieces =>
    let name := text.toList.takeWhile fun c => c == '_' || c.isAlphanum
    match text.toList.drop name.length with
    | '=' :: rest =>
      if name.isEmpty || name.head?.any Char.isDigit then none
      else some (String.ofList name, .text false (String.ofList rest) :: pieces)
    | _ => none
  | _ => none

/-- Carries out the assignments in front of a command and gives back the other words. -/
def assign (state : State) : List Word → State × List Word
  | [] => (state, [])
  | word :: words =>
    match assignment? word with
    | some (name, value) => (state.set name (state.text value)).assign words
    | none => (state, word :: words)

def simple (state : State) (streams : Streams) (words : List Word)
    (redirections : List Redirection) : State :=
  let (state, words) := state.assign words
  let (state, streams) := state.redirectAll streams redirections
  match words.flatMap state.fields with
  | [] => state.finish 0
  | command :: arguments => state.call streams command arguments

def branchFor (state : State) (subject : String) : List (List Word × Command) → Command
  | [] => .nothing
  | (patterns, body) :: branches =>
    if patterns.any fun word => fits (patternOf state word) subject.toList then body
    else state.branchFor subject branches

/-- Executes a command. Once a script is over nothing more is executed. -/
def execute (streams : Streams) : (fuel : Nat) → Command → State → State
  | 0, _, state => { state with isOver := true }
  | fuel + 1, command, state =>
    if state.isOver then state
    else
      match command with
      | .nothing => state
      | .simple words redirections => state.simple streams words redirections
      | .sequence first second => execute streams fuel second (execute streams fuel first state)
      | .both first second =>
        let state := execute streams fuel first state
        if state.status = 0 then execute streams fuel second state else state
      | .either first second =>
        let state := execute streams fuel first state
        if state.status = 0 then state else execute streams fuel second state
      | .negation command =>
        let state := execute streams fuel command state
        if state.isOver then state else state.finish (if state.status = 0 then 1 else 0)
      | .loop condition body =>
        let state := execute streams fuel condition state
        if state.isOver then state
        else if state.status = 0 then
          execute streams fuel (.loop condition body) (execute streams fuel body state)
        else state.finish 0
      | .conditional condition onTrue onFalse =>
        let state := execute streams fuel condition state
        if state.isOver then state
        else if state.status = 0 then execute streams fuel onTrue state
        else execute streams fuel onFalse (state.finish 0)
      | .choice subject branches =>
        execute streams fuel (state.branchFor (state.text subject) branches) state

end State

def deepest : Nat := 100000

/-- Runs a command with parameters. Output goes nowhere and errors are collected. -/
def run (files : FileSystem) (name : String) (parameters : List String) (command : Command) :
    State :=
  State.execute ⟨.nowhere, .errors⟩ deepest command ⟨files, name, parameters, [], 0, [], false⟩

end ExprLang.Script
