import ExprLang.Document

/-!
# Tags

Tags, comments and addresses between angle brackets. Each function takes what stands behind
the first bracket and gives what stands behind the last one, if the form is complete.
-/

namespace ExprLang.Document.Tag

/-! ## Tags -/

def name? (text : Bytes) : Option (Bytes × Bytes) :=
  if text.head?.any isLetter then
    some (text.span fun byte => isLetter byte || isDigit byte || byte == 45)
  else none

def startsAttribute (byte : UInt8) : Bool :=
  isLetter byte || byte == 95 || byte == 58

def isInAttribute (byte : UInt8) : Bool :=
  startsAttribute byte || isDigit byte || byte == 46 || byte == 45

def isInBareValue (byte : UInt8) : Bool :=
  32 < byte && byte != 34 && byte != 39 && byte != 60 && byte != 61 && byte != 62 && byte != 96

def afterValue? : Bytes → Option Bytes
  | 34 :: rest => after? [34] rest
  | 39 :: rest => after? [39] rest
  | text => if text.head?.any isInBareValue then some (text.dropWhile isInBareValue) else none

/-- What follows an attribute. There has to be white space in front of it. -/
def afterAttribute? (text : Bytes) : Option Bytes :=
  let named := trimLeft text
  if text.head?.any isSpace && named.head?.any startsAttribute then
    let rest := named.dropWhile isInAttribute
    match trimLeft rest with
    | 61 :: value => some ((afterValue? (trimLeft value)).getD rest)
    | _ => some rest
  else none

/-- What follows all attributes, of which there are at most `fuel`. -/
def dropAttributes : (fuel : Nat) → Bytes → Bytes
  | 0, text => text
  | fuel + 1, text =>
    match afterAttribute? text with
    | some rest => dropAttributes fuel rest
    | none => text

def afterAttributes (text : Bytes) : Bytes :=
  dropAttributes text.length text

/-- Removes blanks, tabs and line ends. A carriage return alone is no line end. -/
def dropBreaks : Bytes → Bytes
  | 13 :: 10 :: rest => dropBreaks rest
  | 32 :: rest => dropBreaks rest
  | 9 :: rest => dropBreaks rest
  | 10 :: rest => dropBreaks rest
  | text => text

def afterOpening? (text : Bytes) : Option Bytes := do
  let (_, rest) ← name? text
  match dropBreaks (afterAttributes rest) with
  | 47 :: 62 :: rest => some rest
  | 62 :: rest => some rest
  | _ => none

def afterClosing? (text : Bytes) : Option Bytes := do
  let (_, rest) ← name? text
  match dropBreaks rest with
  | 62 :: rest => some rest
  | _ => none

def legible (text : Bytes) : Bytes :=
  match text with
  | [] => []
  | _ :: rest =>
    match Bytes.firstChar? text with
    | none => []
    | some character =>
      if character == '\ufffd' then []
      else
        text.take character.utf8Size ++ legible (rest.drop (character.utf8Size - 1))
termination_by text.length
decreasing_by
  simp only [List.length_cons, List.length_drop]
  omega

def throughLegible (form : Bytes → Option Bytes) (text : Bytes) : Option Bytes :=
  let part := legible text
  (form part).map fun rest => text.drop (part.length - rest.length)

/-! ## Comments and the like -/

def afterComment? : Bytes → Option Bytes
  | 62 :: rest => some rest
  | 45 :: 62 :: rest => some rest
  | text => after? (Bytes.ofString "-->") text

def afterMarkup? (text : Bytes) : Option Bytes :=
  match text with
  | 47 :: byte :: rest =>
    if isLetter byte || isDigit byte then throughLegible afterClosing? (byte :: rest) else none
  | 33 :: 45 :: 45 :: rest => afterComment? rest
  | 63 :: _ => after? (Bytes.ofString "?>") text
  | 33 :: byte :: rest =>
    if 65 ≤ byte && byte ≤ 90 then after? [62] rest
    else if (Bytes.ofString "[CDATA[").isPrefixOf (byte :: rest) then
      after? (Bytes.ofString "]]>") rest
    else none
  | byte :: _ =>
    if isLetter byte || isDigit byte then throughLegible afterOpening? text else none
  | [] => none

/-! ## Addresses -/

def isInScheme (byte : UInt8) : Bool :=
  isLetter byte || isDigit byte || byte == 43 || byte == 45 || byte == 46

def afterAddress? (text : Bytes) : Option Bytes :=
  let (scheme, rest) := text.span isInScheme
  match rest with
  | 58 :: rest =>
    if scheme.head?.any isLetter && 2 ≤ scheme.length && scheme.length ≤ 33 then
      match rest.dropWhile fun byte => 32 < byte && byte != 60 && byte != 62 with
      | 62 :: rest => some rest
      | _ => none
    else none
  | _ => none

def isInMailbox (byte : UInt8) : Bool :=
  isLetter byte || isDigit byte || (Bytes.ofString ".!#$%&'*+/=?^_`\x7b|\x7d~-").contains byte

def isHostPart (part : Bytes) : Bool :=
  part.length ≤ 63 && part.all (fun byte => isLetter byte || isDigit byte || byte == 45) &&
    part.head?.any (· != 45) && part.getLast?.any (· != 45)

def afterMailAddress? (text : Bytes) : Option Bytes :=
  let (mailbox, rest) := text.span isInMailbox
  match rest with
  | 64 :: rest =>
    let host := rest.takeWhile fun byte =>
      isLetter byte || isDigit byte || byte == 45 || byte == 46
    match rest.drop host.length with
    | 62 :: rest =>
      if !mailbox.isEmpty && (host.splitOn 46).all isHostPart then some rest else none
    | _ => none
  | _ => none

def afterBrackets? (text : Bytes) : Option Bytes :=
  afterMailAddress? text <|> afterAddress? text <|> afterMarkup? text

end ExprLang.Document.Tag
