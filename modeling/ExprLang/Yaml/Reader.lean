import ExprLang.Text.Bytes
import ExprLang.Yaml.Error
import ExprLang.Yaml.Scanner

/-!
# Reading YAML documents

The tree of a document is read from its tokens. Of several documents in a text only the first
is read.
-/

namespace ExprLang.Yaml

/-!
## Characters of YAML texts

A text is in UTF-8 unless its first two octets are a mark that tells another form. Control
characters other than tabs and line ends must not occur. All line ends that are no characters
of their own become line feeds.
-/

def isAllowed (code : Nat) : Bool :=
  code == 0x09 || code == 0x0a || code == 0x0d || (0x20 ≤ code && code ≤ 0x7e) ||
    code == 0x85 || (0xa0 ≤ code && code ≤ 0xd7ff) || (0xe000 ≤ code && code ≤ 0xfffd) ||
    (0x10000 ≤ code && code ≤ 0x10ffff)

/-! ### UTF-8 -/

def sequenceWidth? (first : UInt8) : Option Nat :=
  if first < 0x80 then some 1
  else if first &&& 0xe0 == 0xc0 then some 2
  else if first &&& 0xf0 == 0xe0 then some 3
  else if first &&& 0xf8 == 0xf0 then some 4
  else none

def leadingBits (width : Nat) (first : UInt8) : Nat :=
  match width with
  | 1 => first.toNat
  | 2 => (first &&& 0x1f).toNat
  | 3 => (first &&& 0x0f).toNat
  | _ => (first &&& 0x07).toNat

def leastOfWidth : Nat → Nat
  | 1 => 0
  | 2 => 0x80
  | 3 => 0x800
  | _ => 0x10000

def sequenceCode (first : UInt8) (rest : Bytes) : Except OctetProblem (Nat × Nat) :=
  match sequenceWidth? first with
  | none => .error .leadingOctet
  | some width =>
    let trailing := rest.take (width - 1)
    let code := trailing.foldl (fun value octet => 64 * value + (octet &&& 0x3f).toNat)
      (leadingBits width first)
    if trailing.length < width - 1 then .error .incompleteSequence
    else if trailing.any fun octet => octet &&& 0xc0 != 0x80 then .error .trailingOctet
    else if code < leastOfWidth width then .error .sequenceLength
    else if (0xd800 ≤ code && code ≤ 0xdfff) || 0x10ffff < code then .error .notCharacter
    else .ok (code, width)

def ofUtf8 : (fuel : Nat) → Bytes → Except OctetProblem (List Char)
  | 0, _ | _ + 1, [] => .ok []
  | fuel + 1, first :: rest => do
    let (code, width) ← sequenceCode first rest
    if isAllowed code then
      return Char.ofNat code :: (← ofUtf8 fuel (rest.drop (width - 1)))
    else throw .control

/-! ### UTF-16 -/

def unitsCode (unit : Nat) (rest : List Nat) : Except OctetProblem (Nat × List Nat) :=
  if 0xdc00 ≤ unit && unit ≤ 0xdfff then .error .lowSurrogate
  else if 0xd800 ≤ unit && unit ≤ 0xdbff then
    match rest with
    | [] => .error .incompletePair
    | low :: rest =>
      if 0xdc00 ≤ low && low ≤ 0xdfff then
        .ok (0x10000 + 1024 * (unit - 0xd800) + (low - 0xdc00), rest)
      else .error .noLowSurrogate
  else .ok (unit, rest)

def ofUnits : (fuel : Nat) → List Nat → Except OctetProblem (List Char)
  | 0, _ | _ + 1, [] => .ok []
  | fuel + 1, unit :: rest => do
    let (code, rest) ← unitsCode unit rest
    if isAllowed code then return Char.ofNat code :: (← ofUnits fuel rest)
    else throw .control

/-- The units of two octets each; the octet of higher value comes second if `isLittle`. -/
def units (isLittle : Bool) : Bytes → List Nat
  | first :: second :: rest =>
    (if isLittle then 256 * second.toNat + first.toNat else 256 * first.toNat + second.toNat) ::
      units isLittle rest
  | _ => []

def ofUtf16 (isLittle : Bool) (bytes : Bytes) : Except OctetProblem (List Char) := do
  let characters ← ofUnits bytes.length (units isLittle bytes)
  if bytes.length % 2 = 0 then return characters else throw .incompleteUnit

/-! ### Texts -/

def characters : Bytes → Except OctetProblem (List Char)
  | 0xff :: 0xfe :: rest => ofUtf16 true rest
  | 0xfe :: 0xff :: rest => ofUtf16 false rest
  | 0xef :: 0xbb :: 0xbf :: rest => ofUtf8 rest.length rest
  | bytes => ofUtf8 bytes.length bytes

def unifyBreaks : List Char → List Char
  | '\r' :: '\n' :: rest => '\n' :: unifyBreaks rest
  | '\r' :: rest => '\n' :: unifyBreaks rest
  | '\u0085' :: rest => '\n' :: unifyBreaks rest
  | c :: rest => c :: unifyBreaks rest
  | [] => []

/-! ## Reading -/

/-- How far a document has been read: the tokens that are left, the nodes that were named so far,
the last one first, and what the handles of tags stand for. A node has a name from its start
on, but it can be referred to only when it is complete. -/
structure Progress where
  scanner : Scanner
  named : List (String × Option Node)
  handles : List (String × String)

abbrev Parse := StateT Progress (Except SyntaxError)

namespace Parse

/-! ## Helpers -/

def peek : Parse Token := do
  let progress ← get
  let (token, scanner) ← Scan.peek.run progress.scanner
  set { progress with scanner }
  return token

def take : Parse Unit := do
  let progress ← get
  let ((), scanner) ← Scan.take.run progress.scanner
  set { progress with scanner }

/-- Refuses a text at the next token; the construct that is wrong starts on the given line. -/
def fail (problem : NodeProblem) (context : Nat) : Parse α := do
  throw (.nodes problem context (← peek).line)

def absent (line : Nat) : Node :=
  .scalar (line + 1) .null ""

/-! ## Properties -/

structure Properties where
  line : Nat
  anchor : Option String
  tag : Option TagName
  tagLine : Nat

/-- Reads what stands in front of a node: an anchor and a tag, in any order. -/
def properties : Parse Properties := do
  let first ← peek
  match first.lexeme with
  | .anchor anchor =>
    take
    let second ← peek
    match second.lexeme with
    | .tag tag =>
      take
      return ⟨first.line, some anchor, some tag, second.line⟩
    | _ => return ⟨first.line, some anchor, none, 0⟩
  | .tag tag =>
    take
    match (← peek).lexeme with
    | .anchor anchor =>
      take
      return ⟨first.line, some anchor, some tag, first.line⟩
    | _ => return ⟨first.line, none, some tag, first.line⟩
  | _ => return ⟨first.line, none, none, 0⟩

/-- The tag that is given to a node. A single exclamation mark is none. -/
def tagOf (properties : Properties) : Parse (Option Tag) := do
  match properties.tag with
  | none => return none
  | some ⟨handle, suffix⟩ =>
    let handles := ("", "") :: (← get).handles
    match (handles.lookup handle).map (· ++ suffix) with
    | some name => return if name == "" || name == "!" then none else some (.ofFullName name)
    | none => throw (.nodes .unknownHandle properties.line properties.tagLine)

def announce (anchor : Option String) : Parse Unit :=
  anchor.forM fun name =>
    modify fun progress => { progress with named := (name, none) :: progress.named }

def complete (name : String) (node : Node) :
    List (String × Option Node) → List (String × Option Node)
  | [] => []
  | (other, some known) :: rest => (other, some known) :: complete name node rest
  | (other, none) :: rest =>
    if other == name then (name, some node) :: rest else (other, none) :: complete name node rest

def finish (anchor : Option String) (node : Node) : Parse Node := do
  anchor.forM fun name =>
    modify fun progress => { progress with named := complete name node progress.named }
  return node

def resolveAlias (line : Nat) (name : String) : Parse Node := do
  match (← get).named.lookup name with
  | some target => return .reference (line + 1) name target
  | none => throw (.unknownAnchor name)

/-! ## Nodes -/

def endsEntry : Lexeme → Bool
  | .key | .value | .blockEnd => true
  | _ => false

def endsFlowValue (last : Lexeme) (lexeme : Lexeme) : Bool :=
  lexeme == .flowEntry || lexeme == last

mutual

/-- A node. Indented collections can stand here if `inBlock`; a sequence need not be indented
further than the mapping around it if `inMapping`. -/
def node (inBlock inMapping : Bool) : (fuel : Nat) → Parse Node
  | 0 => return absent 0
  | fuel + 1 => do
    let first ← peek
    match first.lexeme with
    | .reference name =>
      take
      resolveAlias first.line name
    | _ =>
      let properties ← properties
      let tag ← tagOf properties
      announce properties.anchor
      let line := properties.line + 1
      finish properties.anchor (← content inBlock inMapping properties line tag fuel)
termination_by structural fuel => fuel

def content (inBlock inMapping : Bool) (properties : Properties) (line : Nat) (tag : Option Tag) :
    (fuel : Nat) → Parse Node
  | 0 => return absent 0
  | fuel + 1 => do
    let token ← peek
    match token.lexeme, inBlock, inMapping with
    | .blockEntry, _, true =>
      return .sequence line (tag.getD .sequence) (← looseItems fuel)
    | .scalar isPlain text, _, _ =>
      take
      return .scalar line (tag.getD (if isPlain then .ofPlain text else .string)) text
    | .flowSequenceStart, _, _ =>
      take
      return .sequence line (tag.getD .sequence) (← flowItems token.line true fuel)
    | .flowMappingStart, _, _ =>
      take
      return .mapping line (tag.getD .mapping) (← flowEntries token.line true fuel)
    | .blockSequenceStart, true, _ =>
      take
      return .sequence line (tag.getD .sequence) (← blockItems token.line fuel)
    | .blockMappingStart, true, _ =>
      take
      return .mapping line (tag.getD .mapping) (← blockEntries token.line fuel)
    | _, _, _ =>
      if properties.anchor.isSome || properties.tag.isSome then
        return .scalar line (tag.getD .null) ""
      else fail .missingNode properties.line
termination_by structural fuel => fuel

def blockItems (start : Nat) : (fuel : Nat) → Parse (List Node)
  | 0 => return []
  | fuel + 1 => do
    let token ← peek
    match token.lexeme with
    | .blockEntry =>
      take
      let next := (← peek).lexeme
      let item ←
        if next == .blockEntry || next == .blockEnd then pure (absent token.line)
        else node true false fuel
      return item :: (← blockItems start fuel)
    | .blockEnd =>
      take
      return []
    | _ => fail .missingItem start
termination_by structural fuel => fuel

def looseItems : (fuel : Nat) → Parse (List Node)
  | 0 => return []
  | fuel + 1 => do
    let token ← peek
    match token.lexeme with
    | .blockEntry =>
      take
      let next := (← peek).lexeme
      let item ←
        if next == .blockEntry || endsEntry next then pure (absent token.line)
        else node true false fuel
      return item :: (← looseItems fuel)
    | _ => return []
termination_by structural fuel => fuel

def blockEntries (start : Nat) : (fuel : Nat) → Parse (List (Node × Node))
  | 0 => return []
  | fuel + 1 => do
    let token ← peek
    match token.lexeme with
    | .key =>
      take
      let key ←
        if endsEntry (← peek).lexeme then pure (absent token.line) else node true true fuel
      let value ← blockValue fuel
      return (key, value) :: (← blockEntries start fuel)
    | .blockEnd =>
      take
      return []
    | _ => fail .missingKey start
termination_by structural fuel => fuel

def blockValue : (fuel : Nat) → Parse Node
  | 0 => return absent 0
  | fuel + 1 => do
    let token ← peek
    if token.lexeme == .value then
      take
      if endsEntry (← peek).lexeme then return absent token.line else node true true fuel
    else return absent token.line
termination_by structural fuel => fuel

def flowItems (start : Nat) (isFirst : Bool) : (fuel : Nat) → Parse (List Node)
  | 0 => return []
  | fuel + 1 => do
    if (← peek).lexeme != .flowSequenceEnd && !isFirst then
      if (← peek).lexeme == .flowEntry then take else fail .unclosedSequence start
    let token ← peek
    match token.lexeme with
    | .flowSequenceEnd =>
      take
      return []
    | .key =>
      take
      let entry ← pair fuel
      return .mapping (token.line + 1) .mapping [entry] :: (← flowItems start false fuel)
    | _ =>
      let item ← node false false fuel
      return item :: (← flowItems start false fuel)
termination_by structural fuel => fuel

/-- A mapping of one entry inside of a flow sequence. A key that is missing takes the token in its
place with it. -/
def pair : (fuel : Nat) → Parse (Node × Node)
  | 0 => return (absent 0, absent 0)
  | fuel + 1 => do
    let token ← peek
    let key ←
      if token.lexeme == .value || endsFlowValue .flowSequenceEnd token.lexeme then do
        take
        pure (absent token.line)
      else node false false fuel
    return (key, ← flowValue .flowSequenceEnd fuel)
termination_by structural fuel => fuel

def flowValue (last : Lexeme) : (fuel : Nat) → Parse Node
  | 0 => return absent 0
  | fuel + 1 => do
    if (← peek).lexeme == .value then
      take
      let next ← peek
      if endsFlowValue last next.lexeme then return absent next.line
      else node false false fuel
    else return absent (← peek).line
termination_by structural fuel => fuel

def flowEntries (start : Nat) (isFirst : Bool) : (fuel : Nat) → Parse (List (Node × Node))
  | 0 => return []
  | fuel + 1 => do
    if (← peek).lexeme != .flowMappingEnd && !isFirst then
      if (← peek).lexeme == .flowEntry then take else fail .unclosedMapping start
    match (← peek).lexeme with
    | .flowMappingEnd =>
      take
      return []
    | .key =>
      take
      let next ← peek
      let key ←
        if next.lexeme == .value || endsFlowValue .flowMappingEnd next.lexeme then
          pure (absent next.line)
        else node false false fuel
      let value ← flowValue .flowMappingEnd fuel
      return (key, value) :: (← flowEntries start false fuel)
    | _ =>
      let key ← node false false fuel
      let value := absent (← peek).line
      return (key, value) :: (← flowEntries start false fuel)
termination_by structural fuel => fuel

end

/-! ## Documents -/

def commonHandles : List (String × String) :=
  [("!", "!"), ("!!", Tag.namespaceText)]

def directives (hasVersion : Bool) : (fuel : Nat) → Parse Unit
  | 0 => return
  | fuel + 1 => do
    let token ← peek
    match token.lexeme with
    | .directive (.version major minor) =>
      if hasVersion then fail .repeatedVersion 0
      else if major != 1 || minor != 1 then fail .otherVersion 0
      else
        take
        directives true fuel
    | .directive (.handle handle start) =>
      if ((← get).handles.lookup handle).isSome then fail .repeatedHandle 0
      else
        modify fun progress => { progress with handles := progress.handles ++ [(handle, start)] }
        take
        directives hasVersion fuel
    | _ => modify fun progress => { progress with handles := progress.handles ++ commonHandles }

def endsDocument : Lexeme → Bool
  | .directive _ | .documentStart | .documentEnd | .streamEnd => true
  | _ => false

/-- The root of the first document, and nothing if there is no document. -/
def document (fuel : Nat) : Parse (Option Node) := do
  discard peek
  take
  let token ← peek
  match token.lexeme with
  | .streamEnd => return none
  | .directive _ | .documentStart =>
    directives false fuel
    if (← peek).lexeme == .documentStart then
      take
      let next ← peek
      let root ← if endsDocument next.lexeme then pure (absent next.line) else node true false fuel
      discard peek
      return some root
    else fail .missingDocument 0
  | _ =>
    directives false fuel
    let root ← node true false fuel
    discard peek
    return some root

end Parse

def parse (text : Bytes) : Except SyntaxError (Option Node) :=
  match characters text with
  | .error problem => .error (.octets problem)
  | .ok characters =>
    let text := unifyBreaks characters
    let fuel := 4 * text.length + 8
    ((Parse.document fuel).run ⟨.start text, [], []⟩).map Prod.fst

end ExprLang.Yaml
