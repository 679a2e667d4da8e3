import ExprLang.Document
import ExprLang.Document.Link
import ExprLang.Document.Tag

/-!
# Blocks

While a document is read, some blocks are open: quotes and list items, which hold other
blocks, and at most one block of lines inside them. For each line the open blocks tell, from
the outermost on, whether they go on. Where one does not, new blocks may start in its place.
-/

/-!
## Rows

A row is what is left of a line after the marks of the blocks around it. It knows its column,
because the width of a tab depends on it: tab stops are four columns apart. Where a mark takes
only some columns of a tab, the others are blanks in front of the row.
-/

namespace ExprLang.Document

/-- The rest of a line, the column where it starts, the number of blanks in front of it that
belong to a tab, and the octet in front of it. -/
structure Row where
  column : Nat
  padding : Nat
  before : UInt8
  rest : Bytes
deriving DecidableEq, Repr

def tabWidth (column : Nat) : Nat :=
  4 - column % 4

/-- The width of the white space at the start of a text in a column, and its length in
octets. -/
def indentation (column : Nat) : Bytes → Nat × Nat
  | 32 :: rest =>
    let (width, length) := indentation (column + 1) rest
    (width + 1, length + 1)
  | 9 :: rest =>
    let (width, length) := indentation (column + tabWidth column) rest
    (width + tabWidth column, length + 1)
  | _ => (0, 0)

/-- How many octets of white space have to go so that at least `wanted` columns are gone, and
how many columns more are gone then. -/
def cut? (column wanted : Nat) : (gone : Nat) → Bytes → Option (Nat × Nat)
  | gone, text =>
    if wanted ≤ gone then some (0, gone - wanted)
    else
      match text with
      | 32 :: rest =>
        (cut? column wanted (gone + 1) rest).map fun (length, more) => (length + 1, more)
      | 9 :: rest =>
        (cut? column wanted (gone + tabWidth (column + gone)) rest).map fun (length, more) =>
          (length + 1, more)
      | _ => none

namespace Row

def ofLine (line : Bytes) : Row := ⟨0, 0, Bytes.newline, line⟩

def text (row : Row) : Bytes :=
  List.replicate row.padding 32 ++ row.rest

def start (row : Row) : Nat := row.column - row.padding

def indent (row : Row) : Nat × Nat :=
  indentation row.start row.text

def isBlank (row : Row) : Bool :=
  Document.isBlank row.rest

def next (row : Row) : Row :=
  if row.padding ≠ 0 then { row with padding := row.padding - 1 }
  else
    match row.rest with
    | [] => row
    | byte :: rest =>
      let width := if byte == 9 then tabWidth row.column else 1
      ⟨row.column + width, 0, byte, rest⟩

def skip (row : Row) (count : Nat) (padding : Nat) : Row :=
  let row := Nat.repeat next count row
  { row with padding := max row.padding padding }

def toEnd (row : Row) : Row :=
  { row with padding := 0, rest := row.rest.dropWhile (· != Bytes.newline) }

def toLine (row : Row) (number : Nat) : Line :=
  ⟨number, (row.rest.takeWhile isSpace).getLast?.getD row.before, trimLeft row.rest⟩

end Row

end ExprLang.Document

namespace ExprLang.Document

/-!
## Blocks of markup

A block of markup starts at a line with a certain tag. Some kinds end at a line with a closing
mark, the others at the next blank line.
-/

/-- What ends a block of markup: a tag that closes verbatim text, some octets, or a blank
line. -/
inductive Markup where
  | untilTag
  | untilMark (mark : Bytes)
  | untilBlank
deriving DecidableEq, Repr

namespace Markup

def verbatimNames : List String := ["script", "pre", "style", "textarea"]

def blockNames : List String :=
  ["address", "article", "aside", "base", "basefont", "blockquote", "body", "caption", "center",
   "col", "colgroup", "dd", "details", "dialog", "dir", "div", "dl", "dt", "fieldset",
   "figcaption", "figure", "footer", "form", "frame", "frameset", "h1", "h2", "h3", "h4", "h5",
   "h6", "head", "header", "hr", "html", "iframe", "legend", "li", "link", "main", "menu",
   "menuitem", "meta", "nav", "noframes", "ol", "optgroup", "option", "p", "param", "search",
   "section", "summary", "table", "tbody", "td", "tfoot", "th", "thead", "title", "tr", "track",
   "ul"]

def lowercase (byte : UInt8) : UInt8 :=
  if 65 ≤ byte && byte ≤ 90 then byte + 32 else byte

/-- Whether a name is among some names, whatever the case of its letters. -/
def isAmong (names : List String) (name : Bytes) : Bool :=
  names.any fun known => Bytes.ofString known == name.map lowercase

/-! ### Starts -/

/-- Whether a text starts, in any case, with a tag for verbatim text, without its bracket. -/
def startsVerbatim (text : Bytes) : Bool :=
  verbatimNames.any fun name =>
    let name := Bytes.ofString name
    name.isPrefixOf (text.map lowercase) &&
      match text.drop name.length with
      | [] => true
      | 47 :: 62 :: _ => true
      | byte :: _ => byte == 62 || byte == 12 || isSpace byte

def startsDeclaration : Bytes → Bool
  | 33 :: byte :: _ => 65 ≤ byte && byte ≤ 90
  | _ => false

def endsLine (text : Bytes) : Bool :=
  match text.dropWhile (· == 32) with
  | [] => true
  | [10] => true
  | [13, 10] => true
  | _ => false

structure Alone where
  name : Bytes
  isPlainClosing : Bool
  hasAttributes : Bool

def alone? (text : Bytes) : Option Alone := do
  let isClosing := text.head? == some 47
  let opened := if isClosing then (text.drop 1).dropWhile (· == 32) else text
  let (name, rest) ← Tag.name? opened
  let behind := Tag.afterAttributes rest
  let closed ←
    match behind.dropWhile (· == 32) with
    | 62 :: rest => some rest
    | 47 :: 62 :: rest => some rest
    | _ => none
  if endsLine closed then
    some ⟨name, isClosing && opened.length + 1 == text.length, behind.length != rest.length⟩
  else none

def startsBlock (text : Bytes) : Bool :=
  let opened := if text.head? == some 47 then (text.drop 1).dropWhile (· == 32) else text
  match Tag.name? opened with
  | none => false
  | some (name, rest) =>
    isAmong blockNames name &&
      match rest with
      | 47 :: 62 :: _ => true
      | byte :: _ => byte == 32 || byte == 62 || endsLine rest
      | [] => true

def standsAlone (text : Bytes) : Bool :=
  match alone? text with
  | none => false
  | some tag =>
    !isAmong ["script", "style", "pre"] tag.name && !(tag.isPlainClosing && tag.hasAttributes)

/-- The block of markup that a text starts. A tag that could stand anywhere starts none inside
a paragraph. -/
def ofText? (isInParagraph : Bool) (text : Bytes) : Option Markup :=
  match text.dropWhile (· == 32) with
  | 60 :: inside =>
    if startsVerbatim inside then some .untilTag
    else if (Bytes.ofString "!--").isPrefixOf inside then
      some (.untilMark (Bytes.ofString "-->"))
    else if inside.head? == some 63 then some (.untilMark (Bytes.ofString "?>"))
    else if startsDeclaration inside then some (.untilMark [62])
    else if (Bytes.ofString "![CDATA[").isPrefixOf inside then
      some (.untilMark (Bytes.ofString "]]>"))
    else if startsBlock inside || (alone? inside).any (fun tag => isAmong blockNames tag.name) ||
        (!isInParagraph && standsAlone inside) then some .untilBlank
    else none
  | _ => none

/-! ### Ends -/

/-- Whether a text has, in any case, a tag that closes verbatim text. -/
def closesVerbatim (text : Bytes) : Bool :=
  verbatimNames.any fun name =>
    (after? (Bytes.ofString ("</" ++ name ++ ">")) (text.map lowercase)).isSome

def isClosedBy (markup : Markup) (line : Bytes) : Bool :=
  match markup with
  | untilTag => closesVerbatim line
  | untilMark mark => (after? mark line).isSome
  | untilBlank => false

end Markup

/-!
## Markers of blocks

Lines that only mark something: breaks between parts of the document, the underlines of
headings, and the bullets and numbers in front of list items.
-/

def isUnderline (text : Bytes) : Bool :=
  let rest := text.dropWhile (· == 32)
  let bar := trimRight rest
  text.length - rest.length ≤ 3 && !bar.isEmpty && (bar.all (· == 61) || bar.all (· == 45))

/-- Whether a text is a thematic break: at least three equal marks and nothing else. -/
def isBreak (text : Bytes) : Bool :=
  match text.filter fun byte => !isSpace byte with
  | [] => false
  | mark :: marks =>
    (mark == 42 || mark == 45 || mark == 95) && marks.all (· == mark) && 2 ≤ marks.length

/-- The marker of a list item: how many octets it takes with the blanks in front of it, its
last octet, its number if it has one, and what follows it. -/
structure Marker where
  length : Nat
  sign : UInt8
  number : Option Nat
  following : Bytes
deriving DecidableEq, Repr

namespace Marker

/-- The marker that ends with a sign. White space or the end of the line has to follow. -/
def ofSign? (length : Nat) (sign : UInt8) (number : Option Nat) (following : Bytes) :
    Option Marker :=
  if following.head?.all fun byte => byte == 32 || byte == 9 || byte == Bytes.newline then
    some ⟨length, sign, number, following⟩
  else none

/-- The marker that a text starts with. A number has at most nine digits. -/
def ofText? (text : Bytes) : Option Marker :=
  let rest := text.dropWhile (· == 32)
  let indent := text.length - rest.length
  if 3 < indent then none
  else
    match rest with
    | [] => none
    | sign :: following =>
      if sign == 45 || sign == 42 || sign == 43 then ofSign? (indent + 1) sign none following
      else
        let (digits, following) := rest.span isDigit
        match following with
        | [] => none
        | sign :: following =>
          if (sign == 46 || sign == 41) && !digits.isEmpty && digits.length ≤ 9 then
            let number := digits.foldl (fun number digit => 10 * number + (digit - 48).toNat) 0
            ofSign? (indent + digits.length + 1) sign (some number) following
          else none

def isBare (marker : Marker) : Bool :=
  isBlank marker.following

/-- The columns between the marker and the text of the item. More than four of them belong to
the text but for the first. -/
def gap (marker : Marker) : Nat :=
  if marker.isBare then 1
  else
    let (width, _) := indentation marker.length marker.following
    if 4 < width then 1 else width

def offset (marker : Marker) : Nat := marker.length + marker.gap

def canInterrupt (marker : Marker) : Bool :=
  !marker.isBare && marker.number.all (· == 1)

def skip (marker : Marker) (row : Row) : Row :=
  match cut? marker.length marker.gap 0 marker.following with
  | some (length, padding) => row.skip (marker.length + length) padding
  | none => row.skip marker.length 0

end Marker

/-!
## Fenced code blocks

A fence of backticks or tildes starts a code block that ends at a fence of at least the same
length. The lines of the block lose the indentation of the fence.
-/

structure Fence where
  mark : UInt8
  length : Nat
  indent : Nat
  language : Bytes
deriving DecidableEq, Repr

namespace Fence

/-- The first word of what stands behind a fence. It is left out if it is a single octet at
the very end of the document. -/
def languageOf (rest : Bytes) : Bytes :=
  if rest.length ≤ 1 then [] else (trimRight (trimLeft rest)).takeWhile (· != 32)

def ofText? (indent : Nat) (text : Bytes) : Option Fence :=
  match text with
  | [] => none
  | mark :: _ =>
    let rest := text.dropWhile (· == mark)
    let length := text.length - rest.length
    if (mark == 96 || mark == 126) && 3 ≤ length && !(mark == 96 && rest.contains 96) then
      some ⟨mark, length, indent, languageOf rest⟩
    else none

def isClosedBy (fence : Fence) (row : Row) : Bool :=
  let (width, indent) := row.indent
  let bar := row.text.drop indent
  let behind := bar.dropWhile (· == fence.mark)
  width < 4 && fence.length ≤ bar.length - behind.length && isBlank behind

/-- How many octets of white space a text starts with, unless there is nothing else on the
line. -/
def leadingSpace (text : Bytes) : Nat :=
  let rest := text.dropWhile fun byte => byte == 32 || byte == 9
  if rest.head?.all (· == Bytes.newline) then 0 else text.length - rest.length

/-- A row without the indentation of the fence. A tab that is cut in two leaves blanks. Where
the row has less white space all of it goes, unless there is nothing else. -/
def outdent (fence : Fence) (row : Row) : Bytes :=
  if fence.indent = 0 then row.text
  else
    match cut? row.start fence.indent row.padding row.rest with
    | some (length, padding) => List.replicate padding 32 ++ row.rest.drop length
    | none => row.rest.drop (leadingSpace row.text)

/-- A line of the code block, which always ends in a line feed. -/
def contentLine (fence : Fence) (row : Row) : Bytes :=
  let text := fence.outdent row
  if text.isEmpty || text.getLast? == some Bytes.newline then text else text ++ [Bytes.newline]

def element (fence : Fence) (first : Nat) (lines : List Bytes) : Element :=
  .fence fence.language lines.flatten (if lines.isEmpty then 1 else first)

end Fence

/-! ## Blocks of lines -/

/-- A part of the outline: a heading with its lines, or a code block. -/
inductive Part where
  | heading (lines : List Line)
  | code (element : Element)
deriving DecidableEq, Repr

/-- An open block. A list item has the sign of its marker, the column of its text and no
contents yet if it is empty. Lines are kept last one first. A block of markup may be complete
after its first line. -/
inductive Block where
  | quote
  | item (sign : UInt8) (offset : Nat) (isEmpty : Bool)
  | paragraph (lines : List Line)
  | indented
  | code (fence : Fence) (first : Nat) (lines : List Bytes)
  | markup (kind : Markup) (isComplete : Bool)
deriving DecidableEq, Repr

namespace Block

def isContainer : Block → Bool
  | quote => true
  | item .. => true
  | _ => false

def isParagraph : Block → Bool
  | paragraph _ => true
  | _ => false

def filled : Block → Block
  | item sign offset _ => item sign offset false
  | block => block

/-- What a block that ends leaves behind: parts of the outline, and labels. -/
def finish : Block → List Part × Link.Labels
  | code fence first lines => ([.code (fence.element first lines.reverse)], [])
  | paragraph lines => ([], (Link.split lines.reverse).1)
  | _ => ([], [])

end Block

/-! ## Continuation -/

/-- A row without the mark of a quote. One column behind the mark belongs to it. -/
def quoted? (row : Row) : Option Row :=
  let (width, indent) := row.indent
  match row.text.drop indent with
  | 62 :: behind =>
    if 3 < width then none
    else
      let inside := row.skip (indent + 1) 0
      match behind.head? with
      | some 32 => some (inside.skip 1 0)
      | some 9 => some (inside.skip 1 (tabWidth inside.start - 1))
      | _ => some inside
  | _ => none

/-- What a row means for an open block: the block goes on with the rest of the row, it gives
way to another item of the same list, or it ends. -/
inductive Continuation where
  | goesOn (block : Block) (row : Row)
  | givesWay
  | ends (row : Row)

/-- Whether a list goes on at a row that is not blank: with another item, or inside the last
one. `isForsaken` tells that blank lines followed an empty item. -/
def listGoesOn (isForsaken : Bool) (sign : UInt8) (offset : Nat) (isEmpty : Bool) (row : Row) :
    Bool :=
  let (width, _) := row.indent
  let marker := if (width < offset || isEmpty) && width < 4 then Marker.ofText? row.text else none
  match marker with
  | some marker => marker.sign == sign && !isBreak (row.text.drop (marker.length - 1))
  | none => offset ≤ width && !isForsaken

def continueItem (isForsaken : Bool) (sign : UInt8) (offset : Nat) (isEmpty : Bool) (row : Row) :
    Continuation :=
  let (width, _) := row.indent
  let isOutside := (isEmpty && isForsaken) || width < offset
  if !listGoesOn isForsaken sign offset isEmpty row then .ends row
  else if isOutside && width < 4 && (Marker.ofText? row.text).isSome then .givesWay
  else
    match cut? row.start offset 0 row.text with
    | some (length, padding) => .goesOn (.item sign offset isEmpty) (row.skip length padding)
    | none => .ends row

/-- What a row means for an open block. A paragraph goes on only where nothing else can start,
so it counts as ended here. -/
def Block.meet (number : Nat) (isForsaken : Bool) (row : Row) : Block → Continuation
  | quote =>
    match quoted? row with
    | some inside => .goesOn quote inside
    | none => .ends row
  | item sign offset isEmpty =>
    if row.isBlank then .goesOn (item sign offset isEmpty) row.toEnd
    else continueItem isForsaken sign offset isEmpty row
  | paragraph _ => .ends row
  | indented => if row.isBlank || 4 ≤ row.indent.1 then .goesOn indented row else .ends row
  | code fence first lines =>
    if fence.isClosedBy row then .ends row.toEnd
    else
      let first := if lines.isEmpty then number else first
      .goesOn (code fence first (fence.contentLine row :: lines)) row
  | markup kind isComplete =>
    if isComplete || (kind = .untilBlank && row.isBlank) then .ends row
    else if kind.isClosedBy row.text then .ends row.toEnd
    else .goesOn (markup kind false) row

/-- How far a row follows the open blocks: those that go on, those that do not, the rest of
the row, whether another item of the same list is due, and whether blank lines have followed an
empty item. -/
structure Followed where
  kept : List Block
  left : List Block
  row : Row
  isDue : Bool
  isForsaken : Bool

/-- Follows the open blocks from the outermost on. At the very end of the document nothing
changes any more. -/
def follow (number : Nat) (isForsaken : Bool) (row : Row) : List Block → Followed
  | [] => ⟨[], [], row, false, isForsaken⟩
  | block :: inner =>
    if row.rest.isEmpty then ⟨block :: inner, [], row, false, isForsaken⟩
    else
      let isForsaken := isForsaken ||
        match block with
        | .item _ _ isEmpty => isEmpty && row.isBlank
        | _ => false
      match block.meet number isForsaken row with
      | .goesOn block row =>
        let followed := follow number isForsaken row inner
        { followed with kept := block :: followed.kept }
      | .givesWay => ⟨[], block :: inner, row, true, isForsaken⟩
      | .ends row => ⟨[], block :: inner, row, false, isForsaken⟩

end ExprLang.Document
