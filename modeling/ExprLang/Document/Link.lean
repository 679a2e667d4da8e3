import ExprLang.Document
import ExprLang.Text.Folding

/-!
# Links

What follows the text of a link: an address with a title between parentheses, or the label of
a definition between brackets. A definition gives a label an address at the start of a
paragraph; two labels are the same if they differ only in case and white space.
-/

namespace ExprLang.Document.Link

/-! ## Addresses and titles -/

/-- Looks for a closing mark, and gives what stands before and behind it. A mark behind a
backslash does not count. If there is none, or an opening mark comes first, what is left where
the search ends is given. -/
def closure (opening closing : UInt8) : Bytes → Except Bytes (Bytes × Bytes)
  | [] => .error []
  | byte :: rest =>
    if byte == 92 && rest.head?.any isPunctuation then
      match rest with
      | [] => .error []
      | next :: rest =>
        (closure opening closing rest).map fun (inside, rest) => (byte :: next :: inside, rest)
    else if byte == closing then .ok ([], rest)
    else if byte == opening then .error (byte :: rest)
    else (closure opening closing rest).map fun (inside, rest) => (byte :: inside, rest)

def afterBracketed? : Bytes → Option Bytes
  | [] => none
  | byte :: rest =>
    if byte == 62 then some rest
    else if byte == Bytes.newline then none
    else if byte == 92 && rest.head?.any isPunctuation then
      match rest with
      | [] => none
      | _ :: rest => afterBracketed? rest
    else afterBracketed? rest

def afterBare : (depth : Nat) → Bytes → Bytes
  | _, [] => []
  | depth, byte :: rest =>
    if byte == 92 && rest.head?.any isPunctuation then
      match rest with
      | [] => []
      | _ :: rest => afterBare depth rest
    else if byte == 40 then afterBare (depth + 1) rest
    else if byte == 41 then
      match depth with
      | 0 => byte :: rest
      | depth + 1 => afterBare depth rest
    else if isSpace byte then byte :: rest
    else afterBare depth rest

def afterAddress? (text : Bytes) : Option Bytes :=
  match trimLeft text with
  | 60 :: rest => afterBracketed? rest
  | text =>
    let rest := afterBare 0 text
    if rest.length = text.length then none else some rest

def closingMark? (byte : UInt8) : Option UInt8 :=
  if byte == 34 || byte == 39 then some byte else if byte == 40 then some 41 else none

def afterTitle? (text : Bytes) : Option Bytes :=
  match trimLeft text with
  | [] => none
  | opening :: rest =>
    match closingMark? opening with
    | none => none
    | some closing => (closure opening closing rest).toOption.map fun (_, rest) => rest

def afterParenthesis? (text : Bytes) : Option Bytes :=
  match trimLeft text with
  | 41 :: rest => some rest
  | _ => none

def afterTarget? (text : Bytes) : Option Bytes :=
  afterParenthesis? text <|> do
    let rest ← afterAddress? text
    afterParenthesis? rest <|> (afterTitle? rest).bind afterParenthesis?

/-! ## Labels -/

def joinSpaces : Bytes → Bytes
  | [] => []
  | byte :: rest =>
    if isSpace byte then
      if rest.head?.any isSpace then joinSpaces rest else 32 :: joinSpaces rest
    else byte :: joinSpaces rest

def normalLabel (label : Bytes) : Bytes :=
  joinSpaces (Bytes.foldCase (trimRight (trimLeft label)))

abbrev Labels := List Bytes

/-- Whether a label is defined. Labels of more than 999 octets never are. -/
def Labels.defines (labels : Labels) (label : Bytes) : Bool :=
  label.length ≤ 999 && labels.contains (normalLabel label)

/-- What follows a link whose text is given, from the octet behind the closing bracket on. -/
def after? (labels : Labels) (text rest : Bytes) : Option Bytes :=
  let short := if labels.defines text then some rest else none
  match rest with
  | 40 :: target => afterTarget? target <|> short
  | 91 :: label =>
    match closure 91 93 label with
    | .error _ => short
    | .ok (label, rest) =>
      if labels.defines (if isBlank label then text else label) then some rest else none
  | _ => short

/-! ## Definitions -/

/-- A definition in a paragraph: its label, the numbers of its first line and of the one
behind its last line, and what follows it. -/
structure Definition where
  label : Bytes
  first : Nat
  last : Nat
  rest : Bytes

/-- The definition that a text starts with. `lineOf` gives the number of the line on which a
rest of the paragraph starts. A title on a line of its own that something follows does not
belong to the definition. -/
def definition? (lineOf : Bytes → Nat) (text : Bytes) : Option Definition := do
  let text := trimLeft text
  let label ← if text.head? == some 91 then some (text.drop 1) else none
  let (label, rest) ← (closure 91 93 label).toOption
  if isBlank label || rest.head? != some 58 then failure
  let rest ← afterAddress? (rest.drop 1)
  let isAlone := isBlank (firstLine rest)
  let plain (last : Nat) (rest : Bytes) : Option Definition :=
    if isAlone then some ⟨label, lineOf text, last, rest⟩ else none
  let title := trimLeft rest
  match title with
  | [] => plain (lineOf rest + 1) title
  | opening :: inside =>
    match closingMark? opening with
    | none => plain (lineOf rest + 1) title
    | some closing =>
      if title.length = rest.length then failure
      match closure opening closing inside with
      | .error rest' => plain (lineOf rest + 1) (dropLine rest')
      | .ok (_, rest') =>
        if isBlank (firstLine rest') then some ⟨label, lineOf text, lineOf rest' + 1, rest'⟩
        else plain (lineOf rest) rest'

/-- The definitions that a text starts with, of which there are at most `fuel`. -/
def definitionsFrom (lineOf : Bytes → Nat) : (fuel : Nat) → Bytes → List Definition
  | 0, _ => []
  | fuel + 1, text =>
    match definition? lineOf text with
    | none => []
    | some definition => definition :: definitionsFrom lineOf fuel definition.rest

def definitions (lines : List Line) : List Definition :=
  let text := (lines.map Line.text).flatten
  let lineOf (rest : Bytes) : Nat :=
    min ((text.take (text.length - rest.length)).count Bytes.newline) (lines.length - 1)
  definitionsFrom lineOf text.length text

/-- Removes the lines of definitions. `removed` is the number of lines in front of those that
are left. -/
def removeLines : (removed : Nat) → List Definition → List Line → List Line
  | _, [], lines => lines
  | removed, definition :: definitions, lines =>
    let last := max definition.last (definition.first + 1)
    removeLines last definitions
      (lines.take (definition.first - removed) ++ lines.drop (last - removed))

def split (lines : List Line) : Labels × List Line :=
  let found := definitions lines
  (found.map fun definition => normalLabel definition.label, removeLines 0 found lines)

end ExprLang.Document.Link
