import ExprLang.Position
import ExprLang.Text.Bytes

/-!
# Tokens

The vocabulary of the source language: keywords, punctuation marks and lexemes. A lexeme
knows the text that it was read from and the name under which token listings show its kind.
-/

namespace ExprLang

inductive Keyword where
  | fn
  | letWord
  | ifWord
  | elseWord
  | each
  | inWord
  | len
  | trueWord
  | falseWord
deriving DecidableEq, Repr

namespace Keyword

def all : List Keyword :=
  [fn, letWord, ifWord, elseWord, each, inWord, len, trueWord, falseWord]

def text : Keyword → String
  | fn => "fn"
  | letWord => "let"
  | ifWord => "if"
  | elseWord => "else"
  | each => "each"
  | inWord => "in"
  | len => "len"
  | trueWord => "true"
  | falseWord => "false"

def kindName : Keyword → String
  | fn => "FN"
  | letWord => "LET"
  | ifWord => "IF"
  | elseWord => "ELSE"
  | each => "EACH"
  | inWord => "IN"
  | len => "LEN"
  | trueWord => "TRUE"
  | falseWord => "FALSE"

def ofText? (text : String) : Option Keyword :=
  all.find? fun word => word.text == text

end Keyword

inductive Mark where
  | assign
  | plus
  | minus
  | asterisk
  | slash
  | less
  | greater
  | equal
  | notEqual
  | lessEqual
  | greaterEqual
  | comma
  | semicolon
  | colon
  | leftParen
  | rightParen
  | leftBrace
  | rightBrace
  | leftBracket
  | rightBracket
deriving DecidableEq, Repr

namespace Mark

def text : Mark → String
  | assign => "="
  | plus => "+"
  | minus => "-"
  | asterisk => "*"
  | slash => "/"
  | less => "<"
  | greater => ">"
  | equal => "=="
  | notEqual => "!="
  | lessEqual => "<="
  | greaterEqual => ">="
  | comma => ","
  | semicolon => ";"
  | colon => ":"
  | leftParen => "("
  | rightParen => ")"
  | leftBrace => "\x7b"
  | rightBrace => "\x7d"
  | leftBracket => "["
  | rightBracket => "]"

def ofPair? (first second : UInt8) : Option Mark :=
  if second != 61 then none
  else
    match first.toNat with
    | 61 => some equal
    | 33 => some notEqual
    | 60 => some lessEqual
    | 62 => some greaterEqual
    | _ => none

def ofByte? (byte : UInt8) : Option Mark :=
  match byte.toNat with
  | 61 => some assign
  | 43 => some plus
  | 45 => some minus
  | 42 => some asterisk
  | 47 => some slash
  | 60 => some less
  | 62 => some greater
  | 44 => some comma
  | 59 => some semicolon
  | 58 => some colon
  | 40 => some leftParen
  | 41 => some rightParen
  | 123 => some leftBrace
  | 125 => some rightBrace
  | 91 => some leftBracket
  | 93 => some rightBracket
  | _ => none

end Mark

/-- One unit of the source text. An integer carries its value only if that is a signed
64-bit number. -/
inductive Lexeme where
  | identifier (name : String)
  | integer (numeral : String) (value : Option Int64)
  | keyword (word : Keyword)
  | mark (sign : Mark)
  | illegal (byte : UInt8)
  | endOfInput
deriving DecidableEq, Repr

namespace Lexeme

def kindName : Lexeme → String
  | identifier _ => "IDENT"
  | integer _ _ => "INT"
  | keyword word => word.kindName
  | mark sign => sign.text
  | illegal _ => "ILLEGAL"
  | endOfInput => "EOF"

/-- The text of a lexeme. An octet that starts no lexeme is shown as the character of the
same number. -/
def text : Lexeme → String
  | identifier name => name
  | integer numeral _ => numeral
  | keyword word => word.text
  | mark sign => sign.text
  | illegal byte => Bytes.latin [byte]
  | endOfInput => ""

/-- The value of an integer, and zero for everything else and for integers that are too
large. -/
def value : Lexeme → Int64
  | integer _ (some value) => value
  | _ => 0

end Lexeme

structure Token where
  position : Position
  lexeme : Lexeme
deriving DecidableEq, Repr

end ExprLang
