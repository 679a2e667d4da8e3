import ExprLang.Text.Bytes

/-!
# Histories

The inputs of earlier sessions and of this one, oldest first. An input that repeats the one
before it is not added, and only the newest ones are kept.
-/

/-!
## Lines

Reading lines from a stream whose buffer has a limited size. A line that fills the buffer is
read in several parts. A line ends with a line feed, and a carriage return in front of it
belongs to the end.
-/

namespace ExprLang.Bytes

def carriageReturn : UInt8 := 13

def bufferSize : Nat := 4096

def withoutLineEnd (line : Bytes) : Bytes :=
  if line.getLast? == some newline then
    let line := line.dropLast
    if line.getLast? == some carriageReturn then line.dropLast else line
  else line

def overflows (line : Bytes) : Bool :=
  bufferSize ≤ line.length && (line.take bufferSize).getLast? != some newline

/-- The parts in which a line is read. A carriage return that ends a part is left for the next
one. -/
def partsOfLine : (fuel : Nat) → Bytes → List Bytes
  | 0, _ => []
  | fuel + 1, line =>
    if line.isEmpty then []
    else if overflows line then
      let part := line.take bufferSize
      let part := if part.getLast? == some carriageReturn then part.dropLast else part
      part :: partsOfLine fuel (line.drop part.length)
    else [withoutLineEnd line]

def readLines (input : Bytes) : List Bytes :=
  input.lines.flatMap fun line => partsOfLine line.length line

end ExprLang.Bytes

namespace ExprLang

/-- Earlier inputs, oldest first. -/
structure History where
  entries : List Bytes
deriving DecidableEq, Repr

namespace History

def limit : Nat := 1000

def empty : History := ⟨[]⟩

def push (history : History) (input : Bytes) : History :=
  let entries := history.entries ++ [input]
  ⟨entries.drop (entries.length - limit)⟩

/-- Adds an input unless it repeats the last one. -/
def add (history : History) (input : Bytes) : History :=
  if history.entries.getLast? == some input then history else history.push input

/-- Reads inputs, one a line. A line that is too long or no text ends the reading. -/
def ofText (text : Bytes) : History :=
  let readable := text.lines.takeWhile fun line =>
    !line.overflows && line.withoutLineEnd.toString?.isSome
  readable.foldl (fun history line => history.push line.withoutLineEnd) empty

def toText (history : History) : Bytes :=
  history.entries.flatMap fun input => input ++ [Bytes.newline]

end History

end ExprLang
