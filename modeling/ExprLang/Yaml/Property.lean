import ExprLang.Text.Bytes
import ExprLang.Yaml.Cursor
import ExprLang.Yaml.Value

/-!
# Anchors, tags and directives

What may stand in front of a node to name it or to say what it is, and what may stand in front
of a document.
-/

namespace ExprLang.Yaml

/-- A tag as it is written: a handle, which stands for the start of the tag, and the rest. -/
structure TagName where
  handle : String
  suffix : String
deriving DecidableEq, Repr

inductive Directive where
  | version (major minor : Nat)
  | handle (handle : String) (start : String)
deriving DecidableEq, Repr

namespace Reading

def anchorName : Reading String := do
  let start := (← get).mark
  skip 1
  let name ← takeWhile isWordChar
  let rest ← rest
  let isEnded := isSeparated rest ||
    rest.head?.any fun c => ['?', ':', ',', ']', '\x7d', '%', '@', '\x60'].contains c
  if !name.isEmpty && isEnded then return String.ofList name else fail .badName start

/-! ## Tags -/

def isTagChar (c : Char) : Bool :=
  isWordChar c ||
    [';', '/', '?', ':', '@', '&', '=', '+', '$', ',', '.', '!', '~', '*', '\'', '(', ')', '[',
     ']'].contains c

def escapedOctet (start : Mark) : Reading UInt8 := do
  match ← rest with
  | '%' :: high :: low :: _ =>
    match numeralValue? 16 [high, low] with
    | some value =>
      skip 3
      return UInt8.ofNat value
    | none => fail .badTagEscape start
  | _ => fail .badTagEscape start

def tagOctets (start : Mark) : (fuel : Nat) → Reading Bytes
  | 0 => return []
  | fuel + 1 => do
    match ← rest with
    | [] => return []
    | c :: _ =>
      if c == '%' then
        let octet ← escapedOctet start
        return octet :: (← tagOctets start fuel)
      else if isTagChar c then
        skip 1
        return String.utf8EncodeChar c ++ (← tagOctets start fuel)
      else return []

/-- The rest of a tag, of which a start may have been read already. -/
def tagText (start : Mark) (head : List Char) : Reading String := do
  let octets ← tagOctets start (← rest).length
  if head.isEmpty && octets.isEmpty then fail .missingTag start
  else
    match octets.toString? with
    | some text => return String.ofList head.tail ++ text
    | none => fail .badTagOctet start

/-- A handle: a word between exclamation marks, or what could be the start of one. -/
def tagHandle (isDirective : Bool) (start : Mark) : Reading (List Char) := do
  if (← rest).head? == some '!' then
    skip 1
    let word ← takeWhile isWordChar
    if (← rest).head? == some '!' then
      skip 1
      return '!' :: word ++ ['!']
    else if isDirective && !word.isEmpty then fail .missingTagMark start
    else return '!' :: word
  else fail .missingTagMark start

def tagName : Reading TagName := do
  let start := (← get).mark
  let name ←
    if (← rest).tail.head? == some '<' then
      skip 2
      let suffix ← tagText start []
      if (← rest).head? == some '>' then
        skip 1
        pure ⟨"", suffix⟩
      else fail .missingTagClose start
    else
      let handle ← tagHandle false start
      if 1 < handle.length && handle.getLast? == some '!' then
        pure ⟨String.ofList handle, ← tagText start []⟩
      else
        let suffix ← tagText start handle
        pure (if suffix == "" then ⟨"", "!"⟩ else ⟨"!", suffix⟩)
  if isSeparated (← rest) then return name else fail .badTagEnd start

/-! ## Directives -/

/-- A number of at most two digits. -/
def versionNumber (start : Mark) : Reading Nat := do
  let digits := (← rest).takeWhile Char.isDigit
  skip (min digits.length 2)
  if digits.isEmpty then fail .missingVersion start
  else if 2 < digits.length then fail .longVersion start
  else return Text.numberOfDigits digits

def version (start : Mark) : Reading Directive := do
  discard (takeWhile isBlank)
  let major ← versionNumber start
  if (← rest).head? == some '.' then
    skip 1
    return .version major (← versionNumber start)
  else fail .missingVersionPoint start

def handle (start : Mark) : Reading Directive := do
  discard (takeWhile isBlank)
  let name ← tagHandle true start
  if (← rest).head?.any isBlank then
    discard (takeWhile isBlank)
    let text ← tagText start []
    if isSeparated (← rest) then return .handle (String.ofList name) text
    else fail .badTagEnd start
  else fail .missingBlank start

def directive : Reading Directive := do
  let start := (← get).mark
  skip 1
  let name ← takeWhile isWordChar
  if name.isEmpty then fail .missingDirective start
  else if !isSeparated (← rest) then fail .badDirective start
  else
    let found ←
      match String.ofList name with
      | "YAML" => version start
      | "TAG" => handle start
      | _ => fail .unknownDirective start
    endLine start
    return found

end Reading

end ExprLang.Yaml
