import ExprLang.Token

/-!
# Reading tokens

A scanner stands at a place of the source text. `next` passes over blanks and comments, reads
the longest lexeme that starts there and leaves the scanner behind it. The first zero octet
ends the text, and at the end `next` answers the end of input again and again. `tokens`
collects everything up to the end.
-/

namespace ExprLang

/-! ## Classes of octets -/

def isNameStart (byte : UInt8) : Bool :=
  (97 ≤ byte && byte ≤ 122) || (65 ≤ byte && byte ≤ 90) || byte == 95

def isDigit (byte : UInt8) : Bool :=
  48 ≤ byte && byte ≤ 57

def isNamePart (byte : UInt8) : Bool :=
  isNameStart byte || isDigit byte

def isSeparator (byte : UInt8) : Bool :=
  byte == 32 || byte == 9 || byte == 10 || byte == 13

def digitsValue (numeral : Bytes) : Nat :=
  numeral.foldl (fun value byte => 10 * value + (byte.toNat - 48)) 0

def largestInteger : Nat := 0x7fffffffffffffff

/-! ## The first lexeme of a text -/

namespace Lexeme

def ofName (name : String) : Lexeme :=
  match Keyword.ofText? name with
  | some word => keyword word
  | none => identifier name

def ofDigits (numeral : Bytes) : Lexeme :=
  let value := digitsValue numeral
  integer numeral.latin (if value ≤ largestInteger then some (Int64.ofNat value) else none)

/-- The lexeme at the front of a text that starts with neither a blank nor a comment,
together with the number of octets that it takes up. -/
def first : Bytes → Lexeme × Nat
  | [] => (endOfInput, 0)
  | byte :: rest =>
    if isNameStart byte then
      let name : Bytes := byte :: rest.takeWhile isNamePart
      (ofName name.latin, name.length)
    else if isDigit byte then
      let numeral : Bytes := byte :: rest.takeWhile isDigit
      (ofDigits numeral, numeral.length)
    else
      match rest.head?.bind (Mark.ofPair? byte) with
      | some pair => (mark pair, 2)
      | none =>
        match Mark.ofByte? byte with
        | some single => (mark single, 1)
        | none => (illegal byte, 1)

theorem ofName_ne_endOfInput (name : String) : ofName name ≠ endOfInput := by
  unfold ofName
  split <;> simp

theorem first_length_pos {text : Bytes} (more : (first text).1 ≠ endOfInput) :
    0 < (first text).2 := by
  unfold first at more ⊢
  repeat' split
  all_goals simp_all

theorem eq_nil_of_first_eq_endOfInput {text : Bytes} (finished : (first text).1 = endOfInput) :
    text = [] := by
  unfold first at finished
  repeat' split at finished
  all_goals simp_all [ofName_ne_endOfInput, ofDigits]

end Lexeme

/-! ## Moving through the text -/

structure Scanner where
  position : Position
  rest : Bytes
deriving DecidableEq, Repr

namespace Scanner

def ofSource (source : Bytes) : Scanner :=
  ⟨Position.start, source.takeWhile (· != 0)⟩

/-- Passes over blanks and comments; `inComment` tells that a comment is being read. -/
def skipFrom (inComment : Bool) (position : Position) : Bytes → Scanner
  | [] => ⟨position, []⟩
  | byte :: rest =>
    if inComment then skipFrom (byte != 10) (position.after byte) rest
    else if isSeparator byte then skipFrom false (position.after byte) rest
    else if byte == 47 && rest.head? == some 47 then skipFrom true (position.after byte) rest
    else ⟨position, byte :: rest⟩

def skip (scanner : Scanner) : Scanner :=
  skipFrom false scanner.position scanner.rest

def advance (scanner : Scanner) (count : Nat) : Scanner :=
  ⟨scanner.position.afterAll (scanner.rest.take count), scanner.rest.drop count⟩

def next (scanner : Scanner) : Token × Scanner :=
  let start := scanner.skip
  let (lexeme, length) := Lexeme.first start.rest
  (⟨start.position, lexeme⟩, start.advance length)

def peek (scanner : Scanner) : Lexeme :=
  scanner.next.1.lexeme

theorem skipFrom_rest_length_le (inComment : Bool) (position : Position) (text : Bytes) :
    (skipFrom inComment position text).rest.length ≤ text.length := by
  induction text generalizing inComment position with
  | nil => simp [skipFrom]
  | cons byte rest induction =>
    unfold skipFrom
    split
    · exact Nat.le_succ_of_le (induction ..)
    · split
      · exact Nat.le_succ_of_le (induction ..)
      · split
        · exact Nat.le_succ_of_le (induction ..)
        · simp

theorem next_rest_length_lt {scanner : Scanner}
    (more : scanner.next.1.lexeme ≠ .endOfInput) :
    scanner.next.2.rest.length < scanner.rest.length := by
  have taken : 0 < (Lexeme.first scanner.skip.rest).2 := Lexeme.first_length_pos more
  have skipped : scanner.skip.rest.length ≤ scanner.rest.length :=
    skipFrom_rest_length_le ..
  have left : 0 < scanner.skip.rest.length := by
    cases empty : scanner.skip.rest with
    | nil => simp [empty, Lexeme.first] at taken
    | cons => simp
  simp only [next, advance, List.length_drop]
  omega

/-- All tokens from here on; the last one is the end of input. -/
def tokens (scanner : Scanner) : List Token :=
  let token := scanner.next.1
  if token.lexeme = .endOfInput then [token]
  else token :: scanner.next.2.tokens
termination_by scanner.rest.length
decreasing_by exact next_rest_length_lt (by assumption)

end Scanner

def Token.ofSource (source : Bytes) : List Token :=
  (Scanner.ofSource source).tokens

end ExprLang
