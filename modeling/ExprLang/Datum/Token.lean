import ExprLang.Datum

/-!
# Tokens of written data

A written datum is read octet by octet, each octet standing for the character of the same
number. White space separates tokens, a comment runs from a semicolon to the end of the line,
and a zero octet ends the text.
-/

namespace ExprLang.Datum

/-! ## Classes of octets -/

def isSpace (byte : UInt8) : Bool :=
  (9 ≤ byte && byte ≤ 13) || byte == 32 || byte == 0x85 || byte == 0xa0

def isDigit (byte : UInt8) : Bool :=
  48 ≤ byte && byte ≤ 57

/-- Whether an octet is a letter; the multiplication and division signs stand among the
letters of the upper half. -/
def isLetter (byte : UInt8) : Bool :=
  (65 ≤ byte && byte ≤ 90) || (97 ≤ byte && byte ≤ 122) ||
    byte == 0xaa || byte == 0xb5 || byte == 0xba ||
    (0xc0 ≤ byte && byte != 0xd7 && byte != 0xf7)

def isSign (byte : UInt8) : Bool :=
  byte == 43 || byte == 45

def isSymbolPart (byte : UInt8) : Bool :=
  isLetter byte || isDigit byte || isSign byte || byte == 95 || byte == 60 || byte == 62

def isLineEnd (byte : UInt8) : Bool :=
  byte == 10 || byte == 13

/-! ## Tokens -/

inductive LexicalError where
  | badEscape (byte : UInt8)
  | unterminatedString
  | unexpectedCharacter (byte : UInt8)
deriving DecidableEq, Repr

def LexicalError.message : LexicalError → String
  | badEscape byte => "invalid escape sequence: \\" ++ Bytes.latin [byte]
  | unterminatedString => "unterminated string"
  | unexpectedCharacter byte => "unexpected character '" ++ Bytes.latin [byte] ++ "'"

inductive Bracket where
  | round
  | square
deriving DecidableEq, Repr

def Bracket.wrap : Bracket → List Datum → Datum
  | round => list
  | square => array

/-- A token. Nothing follows the one that tells of an error. -/
inductive Token where
  | atom (datum : Datum)
  | opening (bracket : Bracket)
  | closing (bracket : Bracket)
  | bad (error : LexicalError)
deriving Repr

def Token.name : Token → String
  | atom datum => datum.kind.name
  | opening .round => "'('"
  | opening .square => "'['"
  | closing .round => "')'"
  | closing .square => "']'"
  | bad _ => "EOF"

def Token.ofBracket? (byte : UInt8) : Option Token :=
  if byte == 40 then some (opening .round)
  else if byte == 41 then some (closing .round)
  else if byte == 91 then some (opening .square)
  else if byte == 93 then some (closing .square)
  else none

/-! ## The first token of a text -/

/-- Reads a string behind its opening quotation mark: the text and the number of octets up to
the closing mark. Characters beyond the first half are written in UTF-8. -/
def readString : Bytes → Except LexicalError (Bytes × Nat)
  | [] => .error .unterminatedString
  | 34 :: _ => .ok ([], 0)
  | 92 :: 34 :: rest => (readString rest).map fun (text, count) => (34 :: text, count + 2)
  | 92 :: 92 :: rest => (readString rest).map fun (text, count) => (92 :: text, count + 2)
  | 92 :: 110 :: rest => (readString rest).map fun (text, count) => (10 :: text, count + 2)
  | 92 :: rest => .error (.badEscape (rest.headD 0))
  | byte :: rest =>
    (readString rest).map fun (text, count) =>
      (Bytes.ofString (Bytes.latin [byte]) ++ text, count + 1)

namespace Token

/-- The token at the front of a text that starts with neither white space nor a comment, and
the number of octets that it takes up. -/
def first (byte : UInt8) (rest : Bytes) : Token × Nat :=
  match ofBracket? byte with
  | some bracket => (bracket, 1)
  | none =>
    if byte == 34 then
      match readString rest with
      | .ok (text, count) => (atom (string text), count + 2)
      | .error error => (bad error, 1)
    else if byte == 46 then
      if [46, 46].isPrefixOf rest then (atom ellipsis, 3) else (bad (.unexpectedCharacter 46), 1)
    else if isDigit byte || isSign byte && rest.head?.any isDigit then
      let numeral : Bytes := byte :: rest.takeWhile isDigit
      (atom (integer numeral), numeral.length)
    else if isLetter byte || isSign byte then
      let name : Bytes := byte :: rest.takeWhile isSymbolPart
      (atom (symbol name), name.length)
    else (bad (.unexpectedCharacter byte), 1)

theorem first_length_pos (byte : UInt8) (rest : Bytes) : 0 < (first byte rest).2 := by
  unfold first
  repeat' split
  all_goals simp

/-- Passes over white space and comments; `inComment` tells that a comment is being read. -/
def skip (inComment : Bool) : Bytes → Bytes
  | [] => []
  | byte :: rest =>
    if inComment then skip (!isLineEnd byte) rest
    else if isSpace byte then skip false rest
    else if byte == 59 then skip true rest
    else byte :: rest

theorem skip_length_le (inComment : Bool) (text : Bytes) :
    (skip inComment text).length ≤ text.length := by
  induction text generalizing inComment with
  | nil => simp [skip]
  | cons byte rest induction =>
    unfold skip
    split
    · exact Nat.le_succ_of_le (induction _)
    · split
      · exact Nat.le_succ_of_le (induction _)
      · split
        · exact Nat.le_succ_of_le (induction _)
        · simp

/-- The tokens of a text in which no octet is zero. Reading stops at the first error. -/
def tokens (text : Bytes) : List Token :=
  match _found : skip false text with
  | [] => []
  | byte :: rest =>
    match first byte rest with
    | (bad error, _) => [bad error]
    | (token, length) => token :: tokens (rest.drop (length - 1))
termination_by text.length
decreasing_by
  have := skip_length_le false text
  simp only [_found, List.length_cons] at this
  simp only [List.length_drop]
  omega

def ofText (text : Bytes) : List Token :=
  tokens (text.takeWhile (· != 0))

end Token

end ExprLang.Datum
