import ExprLang.CommandLine
import ExprLang.Script.Program
import ExprLang.Settings.Decoding

/-!
# The program

The outer layer: it hands the files that the arguments name to the command line, which is a
function on values, then prints what that function printed and writes the files that it
changed. Interactive sessions are answered line by line. Programs of the machine are not
started; an object can be made only by a script among the files.
-/

namespace ExprLang.Main

/-! ## Files -/

def locationOf (current : Location) (path : String) : Location :=
  let full := if Path.isAbsolute path then path else current.path ++ "/" ++ path
  (Path.parts (Path.clean full)).filter (· != "")

def relevantPaths (home : String) (arguments : List String) : List String :=
  Path.join home CommandLine.historyName ::
    arguments.flatMap fun argument =>
      [argument, (argument.splitOn "=").getLastD "",
       Path.join (Path.directory argument) Settings.fileName]

def isDirectory (path : String) : IO Bool := do
  try
    (← IO.FS.realPath path).isDir
  catch _ => return false

def addPath (files : FileSystem) (path : String) : IO FileSystem := do
  let location := locationOf files.current path
  if path == "" then return files
  else if ← isDirectory path then return files.ensureDirectory location
  else
    try
      let content ← IO.FS.readBinFile path
      return files.putFile location content.toList true
    catch _ => return files

def snapshot (home temporary : String) (arguments : List String) : IO FileSystem := do
  let current := locationOf [] (← IO.currentDir).toString
  (temporary :: relevantPaths home arguments).foldlM addPath (FileSystem.empty current)

def writeBack (location : Location) (content : Bytes) : IO Unit := do
  IO.FS.createDirAll (Location.path location.dropLast)
  IO.FS.writeBinFile location.path ⟨content.toArray⟩

/-! ## Running -/

def namedVariables : IO (List (String × String)) := do
  let names := ("verbose" :: TextSetting.all.map TextSetting.name).map Settings.variableName
  ("TMPDIR" :: names).filterMapM fun name => do
    return (← IO.getEnv name).map fun value => (name, value)

def put (stream : IO.FS.Stream) (bytes : Bytes) : IO Unit := do
  stream.write ⟨bytes.toArray⟩
  stream.flush

partial def converse (dialogue : Dialogue) : IO Dialogue := do
  if dialogue.isOver then return dialogue
  else
    let output ← IO.getStdout
    let asked := dialogue.ask
    put output (Bytes.ofString (asked.prompts.getLastD ""))
    let line ← (← IO.getStdin).getLine
    let answered :=
      if line == "" then asked.close
      else asked.takeLine (Bytes.ofString line).withoutLineEnd
    put output answered.output
    put (← IO.getStderr) answered.errors
    converse { answered with output := [], errors := [], prompts := [] }

def holdSession (files : FileSystem) (home : String) : IO UInt32 := do
  put (← IO.getStdout) (Bytes.ofString CommandLine.banner)
  let dialogue ← converse .start
  let path := Path.join home CommandLine.historyName
  let history := dialogue.recorded.foldl History.add (CommandLine.loadHistory files path)
  writeBack (locationOf files.current path) history.toText
  return 0

def runCommand (files : FileSystem) (home : String) (environment : List (String × String))
    (arguments : List String) : IO UInt32 := do
  let input ←
    if arguments.head? == some FileCommand.run.name then (← IO.getStdin).readBinToEnd
    else pure ByteArray.empty
  let seed ← IO.rand 0 0xffffffff
  let outcome := CommandLine.run
    ⟨files, input.toList, environment, home, .standard, Script.programs,
      fun index => UInt32.ofNat (seed + index)⟩ arguments
  for (location, content) in files.changes outcome.files do
    writeBack location content
  put (← IO.getStdout) outcome.output
  put (← IO.getStderr) outcome.errors
  return UInt32.ofNat outcome.status

end ExprLang.Main

open ExprLang in
def main (arguments : List String) : IO UInt32 := do
  let home := (← IO.getEnv "HOME").getD ""
  let environment ← Main.namedVariables
  let temporary := FileSystem.temporaryDirectory environment
  let files ← Main.snapshot home temporary arguments
  if arguments == ["repl"] then Main.holdSession files home
  else Main.runCommand files home environment arguments
