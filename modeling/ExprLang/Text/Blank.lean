import ExprLang.Text.Bytes

/-!
# White space

The characters with the property White_Space, and the removal of such characters from both
ends of a text. On byte strings the UTF-8 forms of these characters are removed, so octets
that spell no character are kept.
-/

namespace ExprLang.Text

def blanks : List Char :=
  ['\t', '\n', '\x0b', '\x0c', '\r', ' ', '\u0085', '\u00a0', '\u1680',
   '\u2000', '\u2001', '\u2002', '\u2003', '\u2004', '\u2005', '\u2006', '\u2007', '\u2008',
   '\u2009', '\u200a', '\u2028', '\u2029', '\u202f', '\u205f', '\u3000']

def isBlank (character : Char) : Bool :=
  blanks.contains character

def trimChars (characters : List Char) : List Char :=
  ((characters.dropWhile isBlank).reverse.dropWhile isBlank).reverse

theorem trimChars_length_le (characters : List Char) :
    (trimChars characters).length ≤ characters.length := by
  have front := (List.dropWhile_suffix isBlank : characters.dropWhile isBlank <:+ _).length_le
  have back := (List.dropWhile_suffix isBlank :
    (characters.dropWhile isBlank).reverse.dropWhile isBlank <:+ _).length_le
  simp only [trimChars, List.length_reverse] at *
  omega

def trim (text : String) : String :=
  String.ofList (trimChars text.toList)

end ExprLang.Text

namespace ExprLang.Bytes

/-- Removes from the front, at most `count` times, any of the given strings. -/
def dropAny (strings : List Bytes) : (count : Nat) → Bytes → Bytes
  | 0, bytes => bytes
  | count + 1, bytes =>
    match strings.find? (·.isPrefixOf bytes) with
    | some found => dropAny strings count (bytes.drop found.length)
    | none => bytes

def trim (bytes : Bytes) : Bytes :=
  let encoded := Text.blanks.map String.utf8EncodeChar
  let started := dropAny encoded bytes.length bytes
  (dropAny (encoded.map List.reverse) started.length started.reverse).reverse

end ExprLang.Bytes
