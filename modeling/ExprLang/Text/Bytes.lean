/-!
# Byte strings

Source text, program input and program output are byte strings: nothing says that they
spell characters. Text that the library writes itself is a `String`, and `ofString` is the
way from the one to the other.
-/

namespace ExprLang

abbrev Bytes := List UInt8

namespace Bytes

def ofString (text : String) : Bytes :=
  text.toList.flatMap String.utf8EncodeChar

/-- The text whose UTF-8 form is `bytes`, if there is one. -/
def toString? (bytes : Bytes) : Option String :=
  String.fromUTF8? ⟨bytes.toArray⟩

/-- The character whose UTF-8 form a byte string starts with, if there is one. -/
def firstChar? (bytes : Bytes) : Option Char :=
  [1, 2, 3, 4].findSome? fun width =>
    if bytes.length < width then none
    else (toString? (bytes.take width)).bind fun text => text.toList.head?

def newline : UInt8 := 10

def latin (bytes : Bytes) : String :=
  String.ofList (bytes.map fun byte => Char.ofNat byte.toNat)

/-- The lines of a text, each with the line feed that ends it; the last one may have none. -/
def lines : Bytes → List Bytes
  | [] => []
  | byte :: rest =>
    if byte == newline then [byte] :: lines rest
    else
      match lines rest with
      | [] => [[byte]]
      | line :: others => (byte :: line) :: others

def trimNewlines (bytes : Bytes) : Bytes :=
  (bytes.reverse.dropWhile (· == newline)).reverse

end Bytes

end ExprLang
