import ExprLang.Text.Decimal
import ExprLang.Text.Printable

/-!
# Quoted texts

Two ways of writing a text between double quotes. `quote` escapes every character that is
not printable and is used in messages; `quoteMarks` escapes only the quote and the backslash
and is used for the names in a printed tree.
-/

namespace ExprLang.Text

def escape (character : Char) : String :=
  if character == '"' then "\\\""
  else if character == '\\' then "\\\\"
  else if isPrintable character then String.singleton character
  else
    match character.toNat with
    | 7 => "\\a"
    | 8 => "\\b"
    | 9 => "\\t"
    | 10 => "\\n"
    | 11 => "\\v"
    | 12 => "\\f"
    | 13 => "\\r"
    | code =>
      if code < 0x20 || code == 0x7f then "\\x" ++ paddedHexadecimal 2 code
      else if code < 0x10000 then "\\u" ++ paddedHexadecimal 4 code
      else "\\U" ++ paddedHexadecimal 8 code

def quote (text : String) : String :=
  "\"" ++ String.join (text.toList.map escape) ++ "\""

def escapeMarks : List Char → List Char
  | [] => []
  | character :: rest =>
    if character == '"' || character == '\\' then '\\' :: character :: escapeMarks rest
    else character :: escapeMarks rest

def quoteMarks (text : String) : String :=
  String.ofList ('"' :: escapeMarks text.toList ++ ['"'])

end ExprLang.Text
