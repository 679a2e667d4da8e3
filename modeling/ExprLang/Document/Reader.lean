import ExprLang.Document.Block
import ExprLang.Document.Inline

/-!
# Reading documents

A document is read line by line. First the line follows the blocks that are open, then new
blocks start in what is left of it. A line of number signs or an underlined paragraph is a
heading. The texts of the headings are read at the end, when all labels are known.
-/

namespace ExprLang.Document

/-! ## Starting blocks -/

def trimClosing (text : Bytes) : Bytes :=
  let shorter := (text.reverse.dropWhile (· == 35)).reverse
  if shorter.isEmpty || shorter.getLast?.any isSpace then shorter else text

def numberedHeading? (text : Bytes) : Option Bytes :=
  let rest := text.dropWhile (· == 35)
  let level := text.length - rest.length
  if level = 0 || 6 < level then none
  else if rest.isEmpty || rest.head?.any isSpace then
    some (trimRight (trimClosing (trimRight (trimLeft rest))))
  else none

/-- What starts on a line: blocks that stay open, outermost first, and a heading; whether
anything starts at all; and whether blank lines have followed an empty list item. -/
structure Started where
  blocks : List Block
  parts : List Part
  isAny : Bool
  isForsaken : Bool

/-- What is known of the last open block when new blocks start: whether it is a paragraph,
whether the new blocks would stand next to it, and whether a list item is due. -/
structure Surroundings where
  isParagraph : Bool
  isSibling : Bool
  isDue : Bool

def Surroundings.empty : Surroundings := ⟨false, false, false⟩

/-- Starts new blocks in a row, at most `fuel` of them inside each other. A paragraph goes on
where nothing else can start. -/
def start (number : Nat) (isForsaken : Bool) :
    (fuel : Nat) → Surroundings → Row → Started
  | 0, _, _ => ⟨[], [], false, isForsaken⟩
  | fuel + 1, surroundings, row =>
    let nothing : Started := ⟨[], [], false, isForsaken⟩
    let leaf (block : Block) : Started := ⟨[block], [], true, isForsaken⟩
    let (width, indent) := row.indent
    let text := row.text.drop indent
    let isAllowed (marker : Marker) : Bool :=
      surroundings.isDue || !(surroundings.isParagraph && surroundings.isSibling) ||
        marker.canInterrupt
    if row.isBlank then nothing
    else if 3 < width then if surroundings.isParagraph then nothing else leaf .indented
    else if isBreak text then ⟨[], [], true, isForsaken⟩
    else if let some marker := (Marker.ofText? row.text).filter isAllowed then
      let item : Block := .item marker.sign marker.offset true
      if marker.isBare then ⟨[item], [], true, false⟩
      else
        let inner := start number false fuel .empty (marker.skip row)
        ⟨(if inner.isAny then item.filled else item) :: inner.blocks, inner.parts, true, false⟩
    else if let some heading := numberedHeading? text then
      let lines := if heading.isEmpty then [] else [⟨number, Bytes.newline, heading⟩]
      ⟨[], [.heading lines], true, isForsaken⟩
    else if let some fence := Fence.ofText? indent text then leaf (.code fence number [])
    else if let some inside := quoted? row then
      let inner := start number isForsaken fuel .empty inside
      { inner with blocks := .quote :: inner.blocks, isAny := true }
    else if let some markup := Markup.ofText? surroundings.isParagraph row.text then
      leaf (.markup markup (markup.isClosedBy row.text))
    else if surroundings.isParagraph then nothing
    else leaf (.paragraph [row.toLine number])

/-! ## Lines -/

/-- The state of the reading: the open blocks, outermost first, whether blank lines have
followed an empty list item, the labels, and the parts of the outline, last one first. -/
structure Reading where
  blocks : List Block
  isForsaken : Bool
  labels : Link.Labels
  parts : List Part

namespace Reading

def finish (reading : Reading) (blocks : List Block) : Reading :=
  blocks.foldl (fun reading block =>
    let (parts, labels) := block.finish
    { reading with
      parts := parts.reverse ++ reading.parts
      labels := labels ++ reading.labels }) reading

def add (reading : Reading) (kept : List Block) (started : Started) : Reading :=
  let kept :=
    match kept.getLast? with
    | some block => if started.isAny then kept.dropLast ++ [block.filled] else kept
    | none => kept
  { reading with
    blocks := kept ++ started.blocks
    isForsaken := started.isForsaken
    parts := started.parts.reverse ++ reading.parts }

/-- A paragraph in front of an underline: its definitions go, and the rest is a heading. If
there is no rest the underline starts something else. -/
def underline (reading : Reading) (followed : Followed) (lines : List Line) (number : Nat) :
    Reading :=
  let lines :=
    match lines with
    | [] => []
    | last :: lines => { last with text := trimRight last.text } :: lines
  let (labels, rest) := Link.split lines.reverse
  let reading := { reading with labels := labels ++ reading.labels }
  if rest.isEmpty then
    let fuel := followed.row.text.length
    reading.add followed.kept (start number followed.isForsaken fuel .empty followed.row)
  else reading.add followed.kept ⟨[], [.heading rest], true, followed.isForsaken⟩

def line (reading : Reading) (number : Nat) (line : Bytes) : Reading :=
  let followed := follow number reading.isForsaken (Row.ofLine line) reading.blocks
  let row := followed.row
  let begin (surroundings : Surroundings) : Started :=
    start number followed.isForsaken row.text.length surroundings row
  match followed.left.getLast? with
  | none =>
    if followed.kept.getLast?.all Block.isContainer then
      reading.add followed.kept (begin .empty)
    else { reading with blocks := followed.kept, isForsaken := followed.isForsaken }
  | some last =>
    let isSibling := followed.left.length == 1
    let started := begin ⟨last.isParagraph, isSibling, followed.isDue⟩
    let ended := (reading.finish followed.left).add followed.kept started
    match last with
    | .paragraph lines =>
      if isSibling && isUnderline row.text then reading.underline followed lines number
      else if started.isAny || row.isBlank then ended
      else
        { reading with
          blocks := followed.kept ++ followed.left.dropLast ++
            [.paragraph (row.toLine number :: lines)]
          isForsaken := followed.isForsaken }
    | _ => ended

def lines (reading : Reading) : (number : Nat) → List Bytes → Reading
  | _, [] => reading.finish reading.blocks
  | number, next :: others => (reading.line number next).lines (number + 1) others

end Reading

/-! ## Documents -/

def Part.toElement (labels : Link.Labels) : Part → Element
  | heading lines => .heading (plainText labels lines) ((lines.head?.map Line.number).getD 1)
  | code element => element

def ofText (text : Bytes) : Document :=
  let reading := (Reading.mk [] false [] []).lines 1 text.lines
  reading.parts.reverse.map (Part.toElement reading.labels)

end ExprLang.Document
