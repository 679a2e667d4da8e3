import ExprLang.Yaml.Property
import ExprLang.Yaml.Scalar

/-!
# Tokens of YAML texts

Tokens are found one after the other, and a few of them are held back: only the colon behind a
key tells that a key it was, and then the token for it goes in front of what was read since.
Where a mapping or sequence starts and ends in indented lines there are tokens as well.
-/

namespace ExprLang.Yaml

inductive Lexeme where
  | streamStart
  | streamEnd
  | directive (directive : Directive)
  | documentStart
  | documentEnd
  | blockSequenceStart
  | blockMappingStart
  | blockEnd
  | flowSequenceStart
  | flowSequenceEnd
  | flowMappingStart
  | flowMappingEnd
  | blockEntry
  | flowEntry
  | key
  | value
  | reference (name : String)
  | anchor (name : String)
  | tag (name : TagName)
  | scalar (isPlain : Bool) (text : String)
deriving DecidableEq, Repr

structure Token where
  lexeme : Lexeme
  line : Nat
deriving DecidableEq, Repr

/-- A token that may turn out to be the start of a key: its number among all tokens and where it
stands. A colon has to follow if it is required. -/
structure PossibleKey where
  isRequired : Bool
  number : Nat
  mark : Mark
deriving DecidableEq, Repr

/-- How far the tokens of a text have been found. `queue` are the tokens that were found but not
taken, `indents` the columns at which the open blocks start, and `keys` the possible keys of the
open flow collections, innermost first; the last one is that outside of all collections. -/
structure Scanner where
  cursor : Cursor
  isStarted : Bool
  queue : List Token
  taken : Nat
  indents : List Int
  keys : List (Option PossibleKey)
  allowsKey : Bool
deriving Repr

abbrev Scan := StateT Scanner (Except SyntaxError)

namespace Scanner

def start (text : List Char) : Scanner :=
  ⟨.start text, false, [], 0, [], [none], true⟩

/-- The column at which the innermost block starts. -/
def indent (scanner : Scanner) : Int :=
  scanner.indents.headD (-1)

def inFlow (scanner : Scanner) : Bool :=
  1 < scanner.keys.length

def nextNumber (scanner : Scanner) : Nat :=
  scanner.taken + scanner.queue.length

end Scanner

namespace Scan

/-! ## Helpers -/

def read (step : Reading α) : Scan α := do
  let scanner ← get
  let (result, cursor) ← step.run scanner.cursor
  set { scanner with cursor }
  return result

def mark : Scan Mark := do
  return (← get).cursor.mark

def rest : Scan (List Char) := do
  return (← get).cursor.rest

def allowKey (allowed : Bool) : Scan Unit :=
  modify fun scanner => { scanner with allowsKey := allowed }

def push (lexeme : Lexeme) (line : Nat) : Scan Unit :=
  modify fun scanner => { scanner with queue := scanner.queue ++ [⟨lexeme, line⟩] }

def insert (number : Nat) (lexeme : Lexeme) (line : Nat) : Scan Unit :=
  modify fun scanner =>
    let place := number - scanner.taken
    { scanner with
      queue := scanner.queue.take place ++ ⟨lexeme, line⟩ :: scanner.queue.drop place }

/-! ## Possible keys -/

def keyReach : Nat := 1024

def isStale (key : PossibleKey) : Scan Bool := do
  let mark ← mark
  return key.mark.line < mark.line || key.mark.index + keyReach < mark.index

def missesColon (key : PossibleKey) : Scan α :=
  read (Reading.fail .missingColon key.mark)

/-- Replaces the possible key of the innermost collection. -/
def setKey (key : Option PossibleKey) : Scan Unit :=
  modify fun scanner => { scanner with keys := key :: scanner.keys.tail }

/-- Gives up the possible key of the innermost collection. -/
def dropKey : Scan Unit := do
  match (← get).keys.head?.join with
  | some key => if key.isRequired then missesColon key else setKey none
  | none => return

/-- Notes that a key may start here, if it may. -/
def noteKey : Scan Unit := do
  let scanner ← get
  if scanner.allowsKey then
    dropKey
    let mark := scanner.cursor.mark
    let isRequired := !scanner.inFlow && scanner.indent == Int.ofNat mark.column
    setKey (some ⟨isRequired, scanner.nextNumber, mark⟩)

/-! ## Blocks -/

/-- Starts a block at a column if it is indented further than the block around it. The token for
it goes in front of the one with the given number. -/
def openBlock (mark : Mark) (number : Nat) (lexeme : Lexeme) : Scan Unit := do
  let scanner ← get
  if !scanner.inFlow && scanner.indent < Int.ofNat mark.column then
    set { scanner with indents := Int.ofNat mark.column :: scanner.indents }
    insert number lexeme mark.line

def closeBlocks (column : Int) (line : Nat) : Scan Unit :=
  modify fun scanner =>
    if scanner.inFlow then scanner
    else
      let ended := scanner.indents.takeWhile (column < ·)
      { scanner with
        indents := scanner.indents.drop ended.length
        queue := scanner.queue ++ ended.map fun _ => ⟨.blockEnd, line⟩ }

/-! ## Between tokens -/

/-- Passes over a comment, and over those that follow it with nothing but white space between
them. -/
def passComments : (fuel : Nat) → Reading Unit
  | 0 => return
  | fuel + 1 => do
    discard (Reading.takeWhile fun c => !isBreak c)
    let spaces := (← Reading.rest).takeWhile isSpace
    if ((← Reading.rest).drop spaces.length).head? == some '#' then
      Reading.skip spaces.length
      passComments fuel

/-- Passes over everything up to the next token. At the start of a line, tabs count as white
space only inside of flow collections. -/
def passToToken : (fuel : Nat) → Scan Unit
  | 0 => return
  | fuel + 1 => do
    if (← mark).column == 0 && (← rest).head? == some '\ufeff' then read (Reading.skip 1)
    let scanner ← get
    let allowsTab := scanner.inFlow || !scanner.allowsKey
    discard (read (Reading.takeWhile fun c => c == ' ' || allowsTab && c == '\t'))
    if (← rest).head? == some '#' then read (passComments (← rest).length)
    if (← rest).head?.any isBreak then
      read (Reading.skip 1)
      if !(← get).inFlow then allowKey true
      passToToken fuel

def passLineComment : Scan Unit := do
  let blanks := (← rest).takeWhile isBlank
  if ((← rest).drop blanks.length).head? == some '#' then
    discard (read (Reading.takeWhile fun c => !isBreak c))

/-! ## Tokens -/

def addMark (lexeme : Lexeme) (length : Nat) : Scan Unit := do
  push lexeme (← mark).line
  read (Reading.skip length)

def endBlocks : Scan Unit := do
  closeBlocks (-1) (← mark).line
  dropKey
  allowKey false

/-- The end of the text. It counts as the start of a line. -/
def endStream : Scan Unit := do
  modify fun scanner =>
    let ⟨index, line, column⟩ := scanner.cursor.mark
    if column == 0 then scanner
    else { scanner with cursor := ⟨scanner.cursor.rest, ⟨index, line + 1, 0⟩⟩ }
  endBlocks
  push .streamEnd (← mark).line

def openFlow (lexeme : Lexeme) : Scan Unit := do
  noteKey
  modify fun scanner => { scanner with keys := none :: scanner.keys, allowsKey := true }
  addMark lexeme 1

def closeFlow (lexeme : Lexeme) : Scan Unit := do
  dropKey
  modify fun scanner =>
    { scanner with
      keys := if scanner.inFlow then scanner.keys.tail else scanner.keys
      allowsKey := false }
  addMark lexeme 1

def flowEntry : Scan Unit := do
  dropKey
  allowKey true
  addMark .flowEntry 1

def blockEntry : Scan Unit := do
  let scanner ← get
  if !scanner.inFlow then
    if scanner.allowsKey then
      openBlock scanner.cursor.mark scanner.nextNumber .blockSequenceStart
    else read (Reading.fail .entryNotAllowed scanner.cursor.mark)
  dropKey
  allowKey true
  addMark .blockEntry 1

def explicitKey : Scan Unit := do
  let scanner ← get
  if !scanner.inFlow then
    if scanner.allowsKey then
      openBlock scanner.cursor.mark scanner.nextNumber .blockMappingStart
    else read (Reading.fail .keyNotAllowed scanner.cursor.mark)
  dropKey
  allowKey (!scanner.inFlow)
  addMark .key 1

def keyOfColon? : Scan (Option PossibleKey) := do
  match (← get).keys.head?.join with
  | none => return none
  | some key =>
    if ← isStale key then
      if key.isRequired then missesColon key
      else
        setKey none
        return none
    else return some key

def value : Scan Unit := do
  match ← keyOfColon? with
  | some key =>
    insert key.number .key key.mark.line
    openBlock key.mark key.number .blockMappingStart
    setKey none
    allowKey false
  | none =>
    let scanner ← get
    if !scanner.inFlow then
      if scanner.allowsKey then
        openBlock scanner.cursor.mark scanner.nextNumber .blockMappingStart
      else read (Reading.fail .valueNotAllowed scanner.cursor.mark)
    allowKey (!scanner.inFlow)
  addMark .value 1

def mayBeKey (found : Reading Lexeme) : Scan Unit := do
  noteKey
  allowKey false
  let line := (← mark).line
  push (← read found) line

def quoted (delimiter : Char) : Scan Unit :=
  mayBeKey do
    let start := (← get).mark
    Reading.skip 1
    let text ← Reading.quoted delimiter start ((← Reading.rest).length + 1) []
    return .scalar false (String.ofList text)

def block (isLiteral : Bool) : Scan Unit := do
  dropKey
  allowKey true
  let scanner ← get
  let text ← read do
    Reading.skip 1
    Reading.block isLiteral scanner.cursor.mark scanner.indent
  push (.scalar false (String.ofList text)) scanner.cursor.mark.line

/-- A plain scalar. Tells whether something else may follow on the same line. -/
def plain : Scan Bool := do
  noteKey
  allowKey false
  let scanner ← get
  let start := scanner.cursor.mark
  let (text, isAtBreak) ← read (Reading.plain scanner.inFlow start (scanner.indent + 1).toNat
    (scanner.cursor.rest.length + 1) [] [] false)
  push (.scalar true (String.ofList text)) start.line
  if isAtBreak then allowKey true
  return !isAtBreak

def isPlainStart (inFlow : Bool) : List Char → Bool
  | [] => false
  | c :: rest =>
    if c == '-' then !rest.head?.any isBlank
    else if c == '?' || c == ':' then !inFlow && !isSeparated rest
    else
      !isSpace c && !isFlowMark c &&
        !(['#', '&', '*', '!', '|', '>', '\'', '"', '%', '@', '\x60'].contains c)

/-- Finds the token that starts with a character. Tells whether a comment on the same line is
still to be passed over. -/
def token (c : Char) (rest : List Char) : Scan Bool := do
  let inFlow := (← get).inFlow
  let isMark := isSeparated rest
  match c with
  | '[' => openFlow .flowSequenceStart; return true
  | '\x7b' => openFlow .flowMappingStart; return true
  | ']' => closeFlow .flowSequenceEnd; return true
  | '\x7d' => closeFlow .flowMappingEnd; return true
  | ',' => flowEntry; return true
  | '*' => mayBeKey (return .reference (← Reading.anchorName)); return true
  | '&' => mayBeKey (return .anchor (← Reading.anchorName)); return true
  | '!' => mayBeKey (return .tag (← Reading.tagName)); return true
  | '\'' => quoted '\''; return true
  | '"' => quoted '"'; return true
  | _ =>
    if c == '-' && isMark then
      blockEntry
      return false
    else if c == '?' && (inFlow || isMark) then
      explicitKey
      return true
    else if c == ':' && (inFlow || isMark) then
      value
      return true
    else if (c == '|' || c == '>') && !inFlow then
      block (c == '|')
      return false
    else if isPlainStart inFlow (c :: rest) then plain
    else read (Reading.fail .badStart (← mark))

def fetch : Scan Unit := do
  if !(← get).isStarted then
    modify fun scanner => { scanner with isStarted := true }
    push .streamStart 0
  else
    let line := (← mark).line
    passToToken ((← rest).length + 1)
    let cursor := (← get).cursor
    closeBlocks (Int.ofNat cursor.mark.column) line
    match cursor.rest with
    | [] => endStream
    | c :: rest =>
      if c == '%' && cursor.mark.column == 0 then
        endBlocks
        let found ← read Reading.directive
        push (.directive found) cursor.mark.line
      else if cursor.isAtIndicator Cursor.documentStart then
        endBlocks
        addMark .documentStart 3
      else if cursor.isAtIndicator Cursor.documentEnd then
        endBlocks
        addMark .documentEnd 3
      else if ← token c rest then passLineComment

/-! ## Taking tokens -/

def lookahead : Nat := 3

def awaitsColon : Scan Bool := do
  let scanner ← get
  match scanner.keys.find? fun key => key.any (·.number == scanner.taken) with
  | some (some key) =>
    if ← isStale key then
      if key.isRequired then missesColon key
      else
        modify fun scanner =>
          { scanner with keys := scanner.keys.map fun other =>
              if other == some key then none else other }
        return false
    else return true
  | _ => return false

def fill : (fuel : Nat) → Scan Unit
  | 0 => return
  | fuel + 1 => do
    if (← get).queue.length < lookahead || (← awaitsColon) then
      fetch
      fill fuel

/-- The next token; at the end of the text there is always one. -/
def peek : Scan Token := do
  fill ((← rest).length + lookahead + 1)
  return (← get).queue.headD ⟨.streamEnd, (← mark).line⟩

def take : Scan Unit :=
  modify fun scanner => { scanner with queue := scanner.queue.tail, taken := scanner.taken + 1 }

end Scan

end ExprLang.Yaml
