import ExprLang.Yaml.Cursor
import ExprLang.Yaml.Value

/-!
# Scalars of YAML texts

A plain scalar ends where something else starts, a quoted one at its closing mark, and a block
scalar with the lines that are indented. A line break inside a plain or quoted scalar becomes
a blank, and further line breaks stay.
-/

namespace ExprLang.Yaml

namespace Reading

/-! ## White space inside of scalars -/

def folded : List Char → List Char
  | ['\n'] => [' ']
  | '\n' :: others => others
  | breaks => breaks

/-- Passes over a run of white space and gives its line breaks. A tab must not stand where
indentation up to the column `needed` is. -/
def passSpaces (start : Mark) (needed : Nat) :
    (breaks : List Char) → (run : List Char) → Reading (List Char)
  | breaks, [] => return breaks.reverse
  | breaks, c :: run => do
    if c == '\t' && !breaks.isEmpty && (← get).mark.column < needed then
      fail .tabInScalar start
    else
      skip 1
      passSpaces start needed (if isBreak c then c :: breaks else breaks) run

/-! ## Plain scalars -/

def plainPart (inFlow : Bool) : List Char → List Char
  | [] => []
  | c :: rest =>
    if isSpace c || c == ':' && isSeparated rest || inFlow && (isFlowMark c || c == '?') then []
    else c :: plainPart inFlow rest

/-- A plain scalar, and whether it ends with its line. Lines that belong to it start at or behind
the column `needed`. `gap` stands for the white space in front of the next part. -/
def plain (inFlow : Bool) (start : Mark) (needed : Nat) :
    (fuel : Nat) → (held gap : List Char) → (isAtBreak : Bool) → Reading (List Char × Bool)
  | 0, held, _, isAtBreak => return (held, isAtBreak)
  | fuel + 1, held, gap, isAtBreak => do
    let cursor ← get
    if cursor.isAtDocumentMark || cursor.rest.head? == some '#' then return (held, isAtBreak)
    else
      let part := plainPart inFlow cursor.rest
      skip part.length
      let held := if part.isEmpty then held else held ++ gap ++ part
      let isAtBreak := isAtBreak && part.isEmpty
      let run := (← rest).takeWhile isSpace
      if run.isEmpty then return (held, isAtBreak)
      else
        let breaks ← passSpaces start needed [] run
        let gap := if breaks.isEmpty then run else folded breaks
        if !inFlow && (← get).mark.column < needed then return (held, !breaks.isEmpty)
        else plain inFlow start needed fuel held gap (!breaks.isEmpty)

/-! ## Quoted scalars -/

def escaped? : Char → Option Char
  | '0' => some '\x00'
  | 'a' => some '\x07'
  | 'b' => some '\x08'
  | 't' | '\t' => some '\t'
  | 'n' => some '\n'
  | 'v' => some '\x0b'
  | 'f' => some '\x0c'
  | 'r' => some '\r'
  | 'e' => some '\x1b'
  | ' ' => some ' '
  | '"' => some '"'
  | '\'' => some '\''
  | '\\' => some '\\'
  | 'N' => some '\u0085'
  | '_' => some '\u00a0'
  | 'L' => some '\u2028'
  | 'P' => some '\u2029'
  | _ => none

def escapeLength? : Char → Option Nat
  | 'x' => some 2
  | 'u' => some 4
  | 'U' => some 8
  | _ => none

/-- The character that an escape stands for; the reversed solidus is still to be read, and the
character behind it is given. -/
def escape (start : Mark) (letter : Char) : Reading Char := do
  match escaped? letter, escapeLength? letter with
  | some character, _ =>
    skip 2
    return character
  | none, some length =>
    skip 2
    let digits := (← rest).take length
    match numeralValue? 16 digits with
    | some value =>
      if digits.length < length then fail .badNumberEscape start
      else if (0xd800 ≤ value && value ≤ 0xdfff) || 0x10ffff < value then
        fail .badCharacterEscape start
      else
        skip length
        return Char.ofNat value
    | none => fail .badNumberEscape start
  | none, none => fail .unknownEscape start

/-- Reads a quoted scalar up to white space or to the closing mark, and tells whether it came to
an escaped line break. `held` is what was read so far, last character first. -/
def quotedPart (mark : Char) (start : Mark) :
    (fuel : Nat) → (held : List Char) → Reading (List Char × Bool)
  | 0, held => return (held, false)
  | fuel + 1, held => do
    match ← rest with
    | [] => return (held, false)
    | c :: rest =>
      if isSpace c then return (held, false)
      else if c == '\'' && mark == '\'' && rest.head? == some '\'' then
        skip 2
        quotedPart mark start fuel ('\'' :: held)
      else if c == mark then return (held, false)
      else if c == '\\' && mark == '"' then
        if rest.head?.any isBreak then
          skip 2
          return (held, true)
        else
          let character ← escape start (rest.headD '\x00')
          quotedPart mark start fuel (character :: held)
      else
        skip 1
        quotedPart mark start fuel (c :: held)

/-- A quoted scalar behind its opening mark. `held` is what was read so far, last character
first. -/
def quoted (mark : Char) (start : Mark) : (fuel : Nat) → (held : List Char) →
    Reading (List Char)
  | 0, _ => fail .endInScalar start
  | fuel + 1, held => do
    let cursor ← get
    if cursor.isAtDocumentMark then fail .documentInScalar start
    else if cursor.rest.isEmpty then fail .endInScalar start
    else
      let (held, isJoined) ← quotedPart mark start (cursor.rest.length + 1) held
      let run := (← rest).takeWhile isSpace
      if (← rest).head? == some mark then
        skip 1
        return held.reverse
      else
        let breaks ← passSpaces start 0 [] run
        let gap := if isJoined then breaks else if breaks.isEmpty then run else folded breaks
        quoted mark start fuel (gap.reverse ++ held)

/-! ## Block scalars -/

inductive Chomping where
  | strip
  | clip
  | keep
deriving DecidableEq, Repr

def chomping? : Reading (Option Chomping) := do
  match ← rest with
  | '+' :: _ =>
    skip 1
    return some .keep
  | '-' :: _ =>
    skip 1
    return some .strip
  | _ => return none

def indentation? (start : Mark) : Reading (Option Nat) := do
  match ← rest with
  | c :: _ =>
    if c == '0' then fail .zeroIndentation start
    else if c.isDigit then
      skip 1
      return some (c.toNat - 48)
    else return none
  | [] => return none

def blockHeader (start : Mark) : Reading (Chomping × Option Nat) := do
  match ← chomping? with
  | some chomping => return (chomping, ← indentation? start)
  | none =>
    match ← indentation? start with
    | some indentation => return ((← chomping?).getD .clip, some indentation)
    | none => return (.clip, none)

/-- Passes over indentation and empty lines in front of a line of a block scalar. Gives the line
breaks and the widest indentation. -/
def blockBreaks (start : Mark) (indent : Option Nat) :
    (fuel : Nat) → (breaks : List Char) → (widest : Nat) → Reading (List Char × Nat)
  | 0, breaks, widest => return (breaks, widest)
  | fuel + 1, breaks, widest => do
    let column := (← get).mark.column
    let blanks := (← rest).takeWhile (· == ' ')
    skip (match indent with
      | some indent => min blanks.length (indent - column)
      | none => blanks.length)
    let column := (← get).mark.column
    let widest := max widest column
    match ← rest with
    | '\t' :: _ =>
      if indent.all (column < ·) then fail .tabInBlock start else return (breaks, widest)
    | c :: _ =>
      if isBreak c then
        skip 1
        blockBreaks start indent fuel (breaks ++ [c]) widest
      else return (breaks, widest)
    | [] => return (breaks, widest)

/-- What was read of a block scalar: its text, the line break behind the last line, the breaks of
the empty lines that follow, and whether the last line starts with white space. -/
structure BlockText where
  text : List Char
  leading : List Char
  trailing : List Char
  isIndented : Bool

def blockLines (start : Mark) (isLiteral : Bool) (indent : Nat) :
    (fuel : Nat) → BlockText → Reading BlockText
  | 0, found => return found
  | fuel + 1, found => do
    let cursor ← get
    if cursor.mark.column == indent && !cursor.rest.isEmpty then
      let isIndented := cursor.rest.head?.any isBlank
      let isFolded := !isLiteral && !found.isIndented && !isIndented &&
        found.leading.head? == some '\n'
      let joint :=
        if !isFolded then found.leading else if found.trailing.isEmpty then [' '] else []
      let line ← takeWhile fun c => !isBreak c
      let leading := ((← rest).takeWhile isBreak).take 1
      skip leading.length
      let (trailing, _) ← blockBreaks start (some indent) ((← rest).length + 1) [] 0
      blockLines start isLiteral indent fuel
        ⟨found.text ++ joint ++ found.trailing ++ line, leading, trailing, isIndented⟩
    else return found

/-- A block scalar behind its opening mark. The lines around it are indented up to the column
`indent`, which is negative if there are none. -/
def block (isLiteral : Bool) (start : Mark) (indent : Int) : Reading (List Char) := do
  let (chomping, increment) ← blockHeader start
  endLine start
  let given := increment.map fun increment => (max indent 0).toNat + increment
  let (trailing, widest) ← blockBreaks start given ((← rest).length + 1) [] 0
  let column := given.getD (max widest (max (indent + 1) 1).toNat)
  let found ← blockLines start isLiteral column ((← rest).length + 1) ⟨[], [], trailing, false⟩
  return found.text ++
    match chomping with
    | .strip => []
    | .clip => found.leading
    | .keep => found.leading ++ found.trailing

end Reading

end ExprLang.Yaml
