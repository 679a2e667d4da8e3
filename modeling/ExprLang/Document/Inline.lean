import ExprLang.Document
import ExprLang.Document.Link
import ExprLang.Document.Tag
import ExprLang.Text.Blank
import ExprLang.Text.Punctuation

/-!
# The text of a heading

The marks of code spans, emphasis and links do not belong to the text of a heading, and
neither do line breaks, addresses and whatever stands between angle brackets. A heading is
read from left to right into pieces: texts, runs of marks that may be emphasis, and brackets
that may start a link. The runs inside a link are settled when the link ends, all others when
the heading ends.
-/

namespace ExprLang.Document

/-!
## Emphasis

Runs of stars and underscores are emphasis where one that can open it is followed by one that
can close it. Whether a run can do so depends on the characters around it. What is left of a
run after all pairs have been formed stays in the text.
-/

structure Run where
  mark : UInt8
  length : Nat
  canOpen : Bool
  canClose : Bool
deriving DecidableEq, Repr

def Run.between (before : Char) (mark : UInt8) (length : Nat) (after : Char) : Run :=
  let isLeft := !Text.isBlank after &&
    (!Text.isPunctuation after || Text.isBlank before || Text.isPunctuation before)
  let isRight := !Text.isBlank before &&
    (!Text.isPunctuation before || Text.isBlank after || Text.isPunctuation after)
  if mark == 95 then
    ⟨mark, length, isLeft && (!isRight || Text.isPunctuation before),
      isRight && (!isLeft || Text.isPunctuation after)⟩
  else ⟨mark, length, isLeft, isRight⟩

/-- A run that may still open emphasis: its number, what it was, and how many of its marks are
left. -/
structure Opener where
  number : Nat
  run : Run
  left : Nat

/-- How many marks an opener and a closer give up to form a pair. Runs that can both open and
close form none if their lengths add up to a multiple of three, unless both are such
multiples. -/
def consumption (opener : Opener) (closer : Run) (left : Nat) : Nat :=
  if (opener.run.canClose || closer.canOpen) &&
      (opener.run.length + closer.length) % 3 == 0 && closer.length % 3 != 0 then 0
  else if 2 ≤ opener.left && 2 ≤ left then 2
  else 1

/-- The nearest run that opens emphasis for a closer, and the runs in front of it. Runs behind
it can open nothing any more. -/
def opener? (closer : Run) (left : Nat) : List Opener → Option (Opener × List Opener)
  | [] => none
  | opener :: others =>
    if opener.run.canOpen && opener.run.mark == closer.mark &&
        consumption opener closer left != 0 then some (opener, others)
    else opener? closer left others

/-- How many marks of each run are left; a run that is not listed has kept all. -/
abbrev Remains := List (Nat × Nat)

/-- Forms pairs with a closer as long as there are openers, at most `fuel` times. -/
def close (closer : Run) : (fuel : Nat) → (left : Nat) → List Opener → Remains →
    Nat × List Opener × Remains
  | 0, left, openers, remains => (left, openers, remains)
  | fuel + 1, left, openers, remains =>
    match opener? closer left openers with
    | none => (left, openers, remains)
    | some (opener, others) =>
      let used := consumption opener closer left
      let kept := opener.left - used
      let openers := if kept = 0 then others else { opener with left := kept } :: others
      let remains := (opener.number, kept) :: remains
      if left = used then (0, openers, remains)
      else close closer fuel (left - used) openers remains

def remainsFrom : (number : Nat) → List Opener → Remains → List Run → Remains
  | _, _, remains, [] => remains
  | number, openers, remains, run :: runs =>
    let (left, openers, remains) :=
      if run.canClose then close run run.length run.length openers remains
      else (run.length, openers, remains)
    let openers := if left ≠ 0 && run.canOpen then ⟨number, run, left⟩ :: openers else openers
    remainsFrom (number + 1) openers ((number, left) :: remains) runs

def remains (runs : List Run) : List Nat :=
  let remains := remainsFrom 0 [] [] runs
  runs.mapIdx fun number run => (remains.lookup number).getD run.length

/-! ## Pieces -/

/-! ## Cursor -/

/-- A place in a heading: what stands on the same line before it, last octet first; what
follows; and the octets in front of the lines that follow. -/
structure Cursor where
  read : Bytes
  rest : Bytes
  margins : Bytes

namespace Cursor

def ofLines (lines : List Line) : Cursor :=
  ⟨[Bytes.newline], (lines.map Line.text).flatten, (lines.drop 1).map Line.before⟩

def next (cursor : Cursor) : Cursor :=
  match cursor.rest with
  | [] => cursor
  | byte :: rest =>
    if byte == Bytes.newline then
      ⟨[cursor.margins.headD Bytes.newline], rest, cursor.margins.drop 1⟩
    else ⟨byte :: cursor.read, rest, cursor.margins⟩

def advance (cursor : Cursor) (count : Nat) : Cursor :=
  Nat.repeat next count cursor

def advanceTo (cursor : Cursor) (rest : Bytes) : Cursor :=
  cursor.advance (cursor.rest.length - rest.length)

def isContinuation (byte : UInt8) : Bool :=
  128 ≤ byte && byte < 192

def before (cursor : Cursor) : Char :=
  let tail := cursor.read.takeWhile isContinuation
  let start := (cursor.read.drop tail.length).headD Bytes.newline
  (Bytes.firstChar? (start :: (tail.reverse ++ cursor.rest))).getD '\ufffd'

/-- The character behind a run of marks. An octet that starts no character belongs to the last
mark. -/
def behind (mark : UInt8) (rest : Bytes) : Char :=
  match rest with
  | [] => ' '
  | byte :: _ =>
    if isContinuation byte then Char.ofNat mark.toNat
    else (Bytes.firstChar? rest).getD '\ufffd'

end Cursor

/-! ## Pieces -/

/-- A piece of a heading: a text, a run of marks, a bracket that may start a link or an image
together with all that follows it, or the place of a link. -/
inductive Piece where
  | text (bytes : Bytes)
  | marks (run : Run)
  | bracket (isImage : Bool) (following : Bytes)
  | link
deriving DecidableEq, Repr

namespace Piece

def isBracket : Piece → Bool
  | bracket .. => true
  | _ => false

def bracketText (isImage : Bool) : Bytes :=
  if isImage then [33, 91] else [91]

def toText : Piece → Bytes
  | text bytes => bytes
  | marks run => List.replicate run.length run.mark
  | bracket isImage _ => bracketText isImage
  | link => []

def run? : Piece → Option Run
  | marks run => some run
  | _ => none

def settleRuns : (left : List Nat) → List Piece → List Piece
  | _, [] => []
  | left, marks run :: pieces =>
    text (List.replicate (left.headD run.length) run.mark) :: settleRuns left.tail pieces
  | left, piece :: pieces => piece :: settleRuns left pieces

/-- Forms emphasis among some pieces. No runs are left. -/
def settle (pieces : List Piece) : List Piece :=
  settleRuns (remains (pieces.filterMap run?)) pieces

end Piece

/-! ## Reading -/

/-- The state of the reading: the place, the pieces so far, last one first, and whether the
octet in front was a backslash that takes the next octet literally. -/
structure Scan where
  cursor : Cursor
  pieces : List Piece
  isEscaped : Bool

/-- The contents of a code span up to a closing run of backticks. `count` is the number of
backticks that were read just before, and `read` is what was read so far, last octet first. -/
def codeSpan? (wanted : Nat) : (count : Nat) → (read : Bytes) → Bytes → Option Bytes
  | count, read, [] => if count == wanted then some (read.drop wanted).reverse else none
  | count, read, byte :: rest =>
    if byte == 96 then codeSpan? wanted (count + 1) (byte :: read) rest
    else if count == wanted then some (read.drop wanted).reverse
    else codeSpan? wanted 0 (byte :: read) rest

/-- The contents of a code span without one blank at each end, if there is more than
blanks. -/
def trimCode (contents : Bytes) : Bytes :=
  let isEnd (byte : UInt8) : Bool := byte == 32 || byte == 10
  if !isBlank contents && contents.head?.any isEnd && contents.getLast?.any isEnd then
    contents.tail.dropLast
  else contents

namespace Scan

def add (scan : Scan) (piece : Piece) (length : Nat) : Scan :=
  { scan with cursor := scan.cursor.advance length, pieces := piece :: scan.pieces }

/-- Reads a code span. A run of backticks that nothing closes is text. -/
def addCode (scan : Scan) : Scan :=
  let ticks := scan.cursor.rest.takeWhile (· == 96)
  match codeSpan? ticks.length 0 [] (scan.cursor.rest.drop ticks.length) with
  | some contents => scan.add (.text (trimCode contents)) (contents.length + 2 * ticks.length)
  | none => scan.add (.text ticks) ticks.length

def addRun (scan : Scan) (mark : UInt8) : Scan :=
  let length := (scan.cursor.rest.takeWhile (· == mark)).length
  let behind := Cursor.behind mark (scan.cursor.rest.drop length)
  let run := Run.between scan.cursor.before mark length behind
  scan.add (.marks run) length

/-- Whether too many octets lie between the outermost and the innermost of the brackets that
are still open. -/
def isTooDeep (outer : List Piece) : Bool :=
  let sizes := outer.filterMap fun
    | .bracket isImage following => some (following.length, (Piece.bracketText isImage).length)
    | _ => none
  match sizes.head?, sizes.getLast? with
  | some (inner, _), some (outermost, width) => 998 + inner < outermost + width
  | _, _ => false

/-- Reads a closing bracket. Either it ends a link, or the bracket that it closes is text. -/
def closeBracket (labels : Link.Labels) (scan : Scan) : Scan × Bool :=
  let inner := scan.pieces.takeWhile fun piece => !piece.isBracket
  match scan.pieces.drop inner.length with
  | .bracket isImage following :: outer =>
    let failed := { scan with
      pieces := inner ++ .text (Piece.bracketText isImage) :: outer }
    let text := following.take (following.length - scan.cursor.rest.length)
    if isTooDeep outer || (!isImage && inner.contains .link) then (failed, false)
    else
      match Link.after? labels text (scan.cursor.rest.drop 1) with
      | none => (failed, false)
      | some rest =>
        let settled := (Piece.settle inner.reverse).reverse
        ({ scan with
          cursor := scan.cursor.advanceTo rest
          pieces := (if isImage then settled else .link :: settled) ++ outer }, true)
  | _ => (scan, false)

def readMark (labels : Link.Labels) (scan : Scan) : Scan × Bool :=
  match scan.cursor.rest with
  | 96 :: _ => (scan.addCode, true)
  | 42 :: _ => (scan.addRun 42, true)
  | 95 :: _ => (scan.addRun 95, true)
  | 33 :: 91 :: following => (scan.add (.bracket true following) 2, true)
  | 91 :: following => (scan.add (.bracket false following) 1, true)
  | 93 :: _ => scan.closeBracket labels
  | 60 :: inside =>
    match Tag.afterBrackets? inside with
    | some rest => ({ scan with cursor := scan.cursor.advanceTo rest }, true)
    | none => (scan, false)
  | _ => (scan, false)

end Scan

def startsPiece (byte : UInt8) : Bool :=
  (Bytes.ofString "`*_![]<").contains byte

/-- How many octets of the first line are text: not its end, nor a backslash or two blanks in
front of the end. A backslash behind another one is text. -/
def textLength (text : Bytes) : Nat :=
  let line := firstLine text
  if line.length = text.length then line.length
  else
    match line.reverse with
    | 92 :: 92 :: _ => line.length
    | 92 :: _ => line.length - 1
    | 13 :: 92 :: 92 :: _ => line.length
    | 13 :: 92 :: _ => line.length - 2
    | 32 :: 32 :: _ => line.length - 2
    | 13 :: 32 :: 32 :: _ => line.length - 3
    | _ => line.length

/-- Reads a heading to its end. `left` is the number of octets of text that are left on the
line, `isFirst` tells whether the next one is the first since the last piece, and `held` is
the text since then, last octet first. White space at the end of a line goes, unless a
backslash ends the line. -/
def readPieces (labels : Link.Labels) :
    (fuel : Nat) → (left : Nat) → (isFirst : Bool) → (held : Bytes) → Scan → List Piece
  | 0, _, _, _, scan => scan.pieces
  | fuel + 1, 0, _, held, scan =>
    let rest := scan.cursor.rest
    let text := held.reverse
    let text := if rest.head? == some 92 then text else trimRight text
    let scan := scan.add (.text text) ((firstLine rest).length + 1)
    if scan.cursor.rest.isEmpty then scan.pieces
    else readPieces labels fuel (textLength scan.cursor.rest) true [] scan
  | fuel + 1, left + 1, isFirst, held, scan =>
    let byte := scan.cursor.rest.headD 0
    let isTried := startsPiece byte && (isFirst || !scan.isEscaped)
    let (scan, isRead) :=
      if isTried then (scan.add (.text held.reverse) 0).readMark labels else (scan, false)
    if isRead then readPieces labels fuel (textLength scan.cursor.rest) true [] scan
    else
      readPieces labels fuel left false (if isTried then [byte] else byte :: held)
        { scan with
          cursor := scan.cursor.next
          isEscaped := !scan.isEscaped && byte == 92 }

def plainText (labels : Link.Labels) (lines : List Line) : Bytes :=
  let cursor := Cursor.ofLines lines
  let pieces := readPieces labels (cursor.rest.length + 1) (textLength cursor.rest) true []
    ⟨cursor, [], false⟩
  ((Piece.settle pieces.reverse).map Piece.toText).flatten

end ExprLang.Document
