import ExprLang.Yaml.Error

/-!
# Places in YAML texts

A cursor is a place in a text. Columns and lines are counted from zero.
-/

namespace ExprLang.Yaml

/-! ## Characters -/

def isBreak (c : Char) : Bool :=
  c == '\n' || c == '\u2028' || c == '\u2029'

def isBlank (c : Char) : Bool :=
  c == ' ' || c == '\t'

def isSpace (c : Char) : Bool :=
  isBlank c || isBreak c

def isSeparated (text : List Char) : Bool :=
  text.head?.all isSpace

def isLineEnd (text : List Char) : Bool :=
  text.head?.all isBreak

def isWordChar (c : Char) : Bool :=
  c.isAlphanum || c == '_' || c == '-'

def isFlowMark (c : Char) : Bool :=
  [',', '[', ']', '\x7b', '\x7d'].contains c

/-! ## Cursors -/

/-- Where a cursor stands: the number of characters in front of it, its line and its column. -/
structure Mark where
  index : Nat
  line : Nat
  column : Nat
deriving DecidableEq, Repr

structure Cursor where
  rest : List Char
  mark : Mark
deriving Repr

namespace Cursor

def start (text : List Char) : Cursor :=
  ⟨text, ⟨0, 0, 0⟩⟩

def next (cursor : Cursor) : Cursor :=
  let ⟨index, line, column⟩ := cursor.mark
  match cursor.rest with
  | [] => cursor
  | c :: rest =>
    if isBreak c then ⟨rest, ⟨index + 1, line + 1, 0⟩⟩
    else ⟨rest, ⟨index + 1, line, column + 1⟩⟩

def skip (cursor : Cursor) : Nat → Cursor
  | 0 => cursor
  | count + 1 => cursor.next.skip count

def isAtIndicator (cursor : Cursor) (indicator : List Char) : Bool :=
  cursor.mark.column == 0 && indicator.isPrefixOf cursor.rest &&
    isSeparated (cursor.rest.drop indicator.length)

def documentStart : List Char := ['-', '-', '-']

def documentEnd : List Char := ['.', '.', '.']

def isAtDocumentMark (cursor : Cursor) : Bool :=
  cursor.isAtIndicator documentStart || cursor.isAtIndicator documentEnd

end Cursor

/-! ## Reading -/

abbrev Reading := StateT Cursor (Except SyntaxError)

namespace Reading

/-- Refuses a text; the construct that is wrong starts at a mark. -/
def fail (problem : TokenProblem) (start : Mark) : Reading α := do
  throw (.tokens problem start.line (← get).mark.line)

def rest : Reading (List Char) := do
  return (← get).rest

def skip (count : Nat) : Reading Unit :=
  modify fun cursor => cursor.skip count

def takeWhile (class_ : Char → Bool) : Reading (List Char) := do
  let found := (← rest).takeWhile class_
  skip found.length
  return found

def endLine (start : Mark) : Reading Unit := do
  discard (takeWhile isBlank)
  if (← rest).head? == some '#' then discard (takeWhile fun c => !isBreak c)
  if isLineEnd (← rest) then skip 1 else fail .badLineEnd start

end Reading

end ExprLang.Yaml
