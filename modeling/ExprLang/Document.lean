import ExprLang.Text.Bytes

/-!
# Documents

Of a document only its headings and its fenced code blocks matter, wherever they stand. A
document is the list of them, in order.
-/

namespace ExprLang

/-- A heading or a fenced code block. The line of a heading is the one on which its text
starts, that of a code block the one of its first content line; where there is nothing the
line is one. -/
inductive Document.Element where
  | heading (text : Bytes) (line : Nat)
  | fence (language content : Bytes) (line : Nat)
deriving DecidableEq, Repr

abbrev Document := List Document.Element

namespace Document

/-! ## Octets -/

def isSpace (byte : UInt8) : Bool :=
  byte == 32 || byte == 9 || byte == 10 || byte == 13

def isLetter (byte : UInt8) : Bool :=
  (65 ≤ byte && byte ≤ 90) || (97 ≤ byte && byte ≤ 122)

def isDigit (byte : UInt8) : Bool :=
  48 ≤ byte && byte ≤ 57

def isPunctuation (byte : UInt8) : Bool :=
  (33 ≤ byte && byte ≤ 47) || (58 ≤ byte && byte ≤ 64) || (91 ≤ byte && byte ≤ 96) ||
    (123 ≤ byte && byte ≤ 126)

/-! ## Texts -/

def trimLeft (text : Bytes) : Bytes :=
  text.dropWhile isSpace

def trimRight (text : Bytes) : Bytes :=
  (text.reverse.dropWhile isSpace).reverse

def isBlank (text : Bytes) : Bool :=
  text.all isSpace

def firstLine (text : Bytes) : Bytes :=
  text.takeWhile (· != Bytes.newline)

def dropLine (text : Bytes) : Bytes :=
  (text.dropWhile (· != Bytes.newline)).drop 1

def after? (wanted : Bytes) : Bytes → Option Bytes
  | [] => if wanted.isEmpty then some [] else none
  | byte :: rest =>
    if wanted.isPrefixOf (byte :: rest) then some ((byte :: rest).drop wanted.length)
    else after? wanted rest

/-- A line of a paragraph: its number in the document, the octet in front of its text, and the
text. Every line but the last of a paragraph ends in a line feed. -/
structure Line where
  number : Nat
  before : UInt8
  text : Bytes
deriving DecidableEq, Repr

end Document

end ExprLang
