/-!
# Scripts

The commands of a shell script, as far as scripts need them that stand in for another
program: simple commands with redirections, lists, loops, conditionals and choices by
pattern. A script is split into words and signs, which are then read as commands. Words in
quotation marks keep everything between them; between double ones the values of variables are
still put in.
-/

namespace ExprLang.Script

/-- A piece of a word. The value of a variable or parameter is put in where it stands. -/
inductive Piece where
  | text (isQuoted : Bool) (text : String)
  | value (isQuoted : Bool) (name : String)
deriving DecidableEq, Repr

abbrev Word := List Piece

inductive Redirection where
  | outputTo (isAppending : Bool) (target : Word)
  | errorsTo (isAppending : Bool) (target : Word)
  | outputToErrors
  | errorsToOutput
  | inputFrom (source : Word)
deriving DecidableEq, Repr

inductive Command where
  | nothing
  | simple (words : List Word) (redirections : List Redirection)
  | sequence (first second : Command)
  | both (first second : Command)
  | either (first second : Command)
  | negation (command : Command)
  | loop (condition body : Command)
  | conditional (condition onTrue onFalse : Command)
  | choice (subject : Word) (branches : List (List Word × Command))
deriving Repr

/-! ## Words and signs -/

inductive Token where
  | word (word : Word)
  | sign (text : String)
  | redirection (stream : Nat) (sign : String)
deriving DecidableEq, Repr

/-! ## Words -/

/-- Adds a character to a word that is held last piece first. -/
def pushCharacter (isQuoted : Bool) (character : Char) : Word → Word
  | .text quoted text :: pieces =>
    if quoted = isQuoted then .text quoted (text.push character) :: pieces
    else .text isQuoted (String.singleton character) :: .text quoted text :: pieces
  | pieces => .text isQuoted (String.singleton character) :: pieces

def isNameCharacter (character : Char) : Bool :=
  character == '_' || character.isAlphanum

def valueName? : List Char → Option (String × List Char)
  | '\x7b' :: rest =>
    let name := rest.takeWhile (· != '\x7d')
    some (String.ofList name, rest.drop (name.length + 1))
  | first :: rest =>
    if ['#', '@', '*', '?'].contains first || first.isDigit then
      some (String.singleton first, rest)
    else
      let name := (first :: rest).takeWhile isNameCharacter
      if name.isEmpty then none else some (String.ofList name, (first :: rest).drop name.length)
  | [] => none

def endsWord (character : Char) : Bool :=
  [' ', '\t', '\n', ';', '&', '|', '(', ')', '<', '>'].contains character

/-- Whether a backslash between double quotation marks takes away the meaning of a
character. -/
def isEscapable (character : Char) : Bool :=
  ['"', '$', '\\', '\x60'].contains character

def readWord (isInside : Bool) : (fuel : Nat) → Word → List Char → Word × List Char
  | 0, held, rest => (held.reverse, rest)
  | _ + 1, held, [] => (held.reverse, [])
  | fuel + 1, held, '"' :: rest =>
    if isInside then (held.reverse, rest)
    else
      let (pieces, rest) := readWord true fuel [.text true ""] rest
      readWord isInside fuel (pieces.reverse ++ held) rest
  | fuel + 1, held, '$' :: rest =>
    match valueName? rest with
    | some (name, rest) => readWord isInside fuel (.value isInside name :: held) rest
    | none => readWord isInside fuel (pushCharacter isInside '$' held) rest
  | fuel + 1, held, '\\' :: '\n' :: rest => readWord isInside fuel held rest
  | fuel + 1, held, '\\' :: character :: rest =>
    let isKept := isInside && !isEscapable character
    let held := if isKept then pushCharacter true '\\' held else held
    readWord isInside fuel (pushCharacter true character held) rest
  | fuel + 1, held, character :: rest =>
    if isInside then readWord isInside fuel (pushCharacter true character held) rest
    else if character == '\'' then
      let text := rest.takeWhile (· != '\'')
      readWord isInside fuel (.text true (String.ofList text) :: held)
        (rest.drop (text.length + 1))
    else if endsWord character then (held.reverse, character :: rest)
    else readWord isInside fuel (pushCharacter false character held) rest

/-! ## Tokens -/

def signs : List String :=
  [";;", "&&", "||", ";", "\n", "|", "&", "(", ")"]

def redirectionSigns : List String :=
  [">>", ">&", ">", "<"]

def signAt? (listed : List String) (text : List Char) : Option String :=
  listed.find? fun sign => sign.toList.isPrefixOf text

/-- A redirection at the start of a text; without a number it is the output or, for input,
the input. -/
def redirectionAt? (text : List Char) : Option (Token × List Char) :=
  let digits := text.takeWhile Char.isDigit
  let rest := text.drop digits.length
  (signAt? redirectionSigns rest).map fun sign =>
    let stream := (String.ofList digits).toNat?.getD (if sign == "<" then 0 else 1)
    (.redirection stream sign, rest.drop sign.length)

def tokens : (fuel : Nat) → List Char → List Token
  | 0, _ => []
  | _ + 1, [] => []
  | fuel + 1, character :: rest =>
    if character == ' ' || character == '\t' then tokens fuel rest
    else if character == '#' then tokens fuel (rest.dropWhile (· != '\n'))
    else
      match signAt? signs (character :: rest), redirectionAt? (character :: rest) with
      | some sign, _ => .sign sign :: tokens fuel ((character :: rest).drop sign.length)
      | none, some (token, rest) => token :: tokens fuel rest
      | none, none =>
        let (word, rest) := readWord false (fuel + 1) [] (character :: rest)
        .word word :: tokens fuel rest

/-! ## Commands -/

abbrev Reading := StateT (List Token) Option

namespace Reading

def plainWord (text : String) : Token :=
  .word [.text false text]

def closers : List Token :=
  (["then", "do", "done", "fi", "else", "elif", "esac", "\x7d"].map plainWord) ++
    [.sign ";;", .sign ")"]

/-- Takes a token if it comes next. -/
def accept (token : Token) : Reading Bool := do
  match ← get with
  | next :: rest =>
    if next = token then
      set rest
      return true
    else return false
  | [] => return false

def expect (token : Token) : Reading Unit := do
  if ← accept token then return else failure

def skipSeparators : Reading Unit :=
  modify fun tokens => tokens.dropWhile fun token => token = .sign ";" || token = .sign "\n"

def word : Reading Word := do
  match ← get with
  | .word word :: rest =>
    set rest
    return word
  | _ => failure

def redirection (stream : Nat) (sign : String) (target : Word) : Redirection :=
  if sign == "<" then .inputFrom target
  else if sign == ">&" then
    if stream = 2 then .errorsToOutput else .outputToErrors
  else if stream = 2 then .errorsTo (sign == ">>") target
  else .outputTo (sign == ">>") target

def simple : (fuel : Nat) → Reading (List Word × List Redirection)
  | 0 => return ([], [])
  | fuel + 1 => do
    match ← get with
    | .word word :: rest =>
      set rest
      let (words, redirections) ← simple fuel
      return (word :: words, redirections)
    | .redirection stream sign :: .word target :: rest =>
      set rest
      let (words, redirections) ← simple fuel
      return (words, redirection stream sign target :: redirections)
    | _ => return ([], [])

def patterns : (fuel : Nat) → Reading (List Word)
  | 0 => failure
  | fuel + 1 => do
    let first ← word
    if ← accept (.sign "|") then return first :: (← patterns fuel)
    else
      expect (.sign ")")
      return [first]

mutual

/-- Commands one after the other. -/
def list : (fuel : Nat) → Reading Command
  | 0 => failure
  | fuel + 1 => do
    skipSeparators
    match ← get with
    | [] => return .nothing
    | next :: _ =>
      if closers.contains next then return .nothing
      else
        let first ← joined fuel
        return .sequence first (← list fuel)
termination_by structural fuel => fuel

def joined : (fuel : Nat) → Reading Command
  | 0 => failure
  | fuel + 1 => do
    let first ← command fuel
    if ← accept (.sign "&&") then return .both first (← joined fuel)
    else if ← accept (.sign "||") then return .either first (← joined fuel)
    else return first
termination_by structural fuel => fuel

def command : (fuel : Nat) → Reading Command
  | 0 => failure
  | fuel + 1 => do
    if ← accept (plainWord "!") then return .negation (← command fuel)
    else if ← accept (plainWord "\x7b") then
      let body ← list fuel
      expect (plainWord "\x7d")
      return body
    else if ← accept (plainWord "while") then
      let condition ← list fuel
      expect (plainWord "do")
      let body ← list fuel
      expect (plainWord "done")
      return .loop condition body
    else if ← accept (plainWord "if") then conditional fuel
    else if ← accept (plainWord "case") then
      let subject ← word
      skipSeparators
      expect (plainWord "in")
      return .choice subject (← branches fuel)
    else
      let (words, redirections) ← simple (← get).length
      if words.isEmpty && redirections.isEmpty then failure
      else return .simple words redirections
termination_by structural fuel => fuel

def conditional : (fuel : Nat) → Reading Command
  | 0 => failure
  | fuel + 1 => do
    let condition ← list fuel
    expect (plainWord "then")
    let onTrue ← list fuel
    if ← accept (plainWord "elif") then
      return .conditional condition onTrue (← conditional fuel)
    else if ← accept (plainWord "else") then
      let onFalse ← list fuel
      expect (plainWord "fi")
      return .conditional condition onTrue onFalse
    else
      expect (plainWord "fi")
      return .conditional condition onTrue .nothing
termination_by structural fuel => fuel

def branches : (fuel : Nat) → Reading (List (List Word × Command))
  | 0 => failure
  | fuel + 1 => do
    skipSeparators
    if ← accept (plainWord "esac") then return []
    else
      let _ ← accept (.sign "(")
      let accepted ← patterns (← get).length
      let body ← list fuel
      let _ ← accept (.sign ";;")
      return (accepted, body) :: (← branches fuel)
termination_by structural fuel => fuel

end

end Reading

def parse? (script : String) : Option Command := do
  let characters := script.toList
  let tokens := tokens (characters.length + 1) characters
  let (command, rest) ← (Reading.list (4 * tokens.length + 4)).run tokens
  if rest.isEmpty then return command else none

end ExprLang.Script
