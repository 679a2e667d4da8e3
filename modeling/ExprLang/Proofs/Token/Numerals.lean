import ExprLang.Proofs.Syntax.Scanning
import ExprLang.Proofs.Text.Ascii
import ExprLang.Proofs.Token.Segmentation
import Mathlib.Tactic.IntervalCases

/-!
# Decimal numerals of signed words

A numeral is read with signed 64-bit arithmetic that wraps around: the digits are added up one after
the other, and before each of them one division tells whether it still fits. A word is written
without ever changing its sign, because the least word has no opposite. Main statement: both are
exact for numerals of any length and for every word, so what is written is read back.
-/

namespace ExprLang

/-! ## Reading one digit after the other -/

namespace Numeral

/-- What has been read of a numeral: its digits added up with wrapping arithmetic, and whether one
of them did not fit. -/
structure Reading where
  value : Int64
  tooLarge : Bool
deriving DecidableEq, Repr

def digit (byte : UInt8) : Int64 :=
  (byte - 48).toUInt64.toInt64

/-- Reads one more digit. Digits are added even when the value has long wrapped around. -/
def Reading.push (reading : Reading) (byte : UInt8) : Reading :=
  ⟨reading.value * 10 + digit byte,
    reading.tooLarge || decide ((Int64.maxValue - digit byte) / 10 < reading.value)⟩

def accumulate (numeral : Bytes) : Reading :=
  numeral.foldl Reading.push ⟨0, false⟩

/-- The value of what was read, which is zero for a numeral that is too large. -/
def Reading.result (reading : Reading) : Int64 :=
  if reading.tooLarge then 0 else reading.value

theorem toInt_digit {byte : UInt8} (digital : isDigit byte = true) :
    (digit byte).toInt = (byte.toNat - 48 : Nat) ∧ byte.toNat - 48 ≤ 9 := by
  have all : ∀ byte : UInt8, isDigit byte = true →
      (digit byte).toInt = (byte.toNat - 48 : Nat) ∧ byte.toNat - 48 ≤ 9 := by
    decide +kernel
  exact all byte digital

theorem bmod_eq_self {value : Int} (least : -2 ^ 63 ≤ value) (greatest : value < 2 ^ 63) :
    value.bmod (2 ^ 64) = value :=
  Int.bmod_eq_of_le (by omega) (by omega)

theorem natAbs_tdiv_ten (number : Int) : (number.tdiv 10).natAbs = number.natAbs / 10 :=
  Int.natAbs_tdiv number 10

theorem toInt_div_ten (value : Int64) : (value / 10).toInt = value.toInt.tdiv 10 := by
  have least := value.le_toInt
  have greatest := value.toInt_lt
  have magnitude := natAbs_tdiv_ten value.toInt
  have ten : (10 : Int64).toInt = 10 := by decide
  rw [Int64.toInt_div, ten]
  exact bmod_eq_self (by omega) (by omega)

theorem does_not_fit_iff {value : Int64} {byte : UInt8} (digital : isDigit byte = true) :
    (Int64.maxValue - digit byte) / 10 < value ↔
      (largestInteger : Int) < 10 * value.toInt + (byte.toNat - 48 : Nat) := by
  obtain ⟨same, small⟩ := toInt_digit digital
  have difference : (Int64.maxValue - digit byte).toInt = 2 ^ 63 - 1 - (byte.toNat - 48 : Nat) := by
    rw [Int64.toInt_sub, Int64.toInt_maxValue, same]
    exact bmod_eq_self (by omega) (by omega)
  rw [Int64.lt_iff_toInt_lt, toInt_div_ten, difference, Int.tdiv_eq_ediv_of_nonneg (by omega),
    largestInteger]
  omega

structure Reading.StandsFor (reading : Reading) (number : Nat) : Prop where
  tooLarge : reading.tooLarge = true ↔ largestInteger < number
  value : number ≤ largestInteger → reading.value.toInt = number

theorem Reading.StandsFor.push {reading : Reading} {number : Nat} {byte : UInt8}
    (stands : reading.StandsFor number) (digital : isDigit byte = true) :
    (reading.push byte).StandsFor (10 * number + (byte.toNat - 48)) := by
  obtain ⟨same, small⟩ := toInt_digit digital
  by_cases fits : number ≤ largestInteger
  · have value := stands.value fits
    have soFar : reading.tooLarge = false := by
      rw [Bool.eq_false_iff, ne_eq, stands.tooLarge]
      omega
    constructor
    · rw [Reading.push, soFar, Bool.false_or, decide_eq_true_iff, does_not_fit_iff digital, value]
      omega
    · intro still
      have ten : (10 : Int64).toInt = 10 := by decide
      have bound : largestInteger = 2 ^ 63 - 1 := rfl
      rw [Reading.push, Int64.toInt_add, Int64.toInt_mul, value, same, ten,
        @bmod_eq_self (number * 10) (by omega) (by omega), bmod_eq_self (by omega) (by omega)]
      omega
  · have before : reading.tooLarge = true := stands.tooLarge.mpr (by omega)
    constructor
    · rw [Reading.push, before, Bool.true_or]
      exact iff_of_true rfl (by omega)
    · omega

theorem digitsValue_append (front : Bytes) (last : UInt8) :
    digitsValue (front ++ [last]) = 10 * digitsValue front + (last.toNat - 48) := by
  simp [digitsValue]

theorem standsFor_accumulate {numeral : Bytes} (digital : ∀ byte ∈ numeral, isDigit byte = true) :
    (accumulate numeral).StandsFor (digitsValue numeral) := by
  induction numeral using List.reverseRecOn with
  | nil => exact ⟨by decide, fun _ => rfl⟩
  | append_singleton front last induction =>
      have before := induction fun byte member => digital byte (List.mem_append_left _ member)
      rw [digitsValue_append, accumulate, List.foldl_append]
      exact before.push (digital last (by simp))

theorem value_ofDigits {numeral : Bytes} (digital : ∀ byte ∈ numeral, isDigit byte = true) :
    (Lexeme.ofDigits numeral).value = (accumulate numeral).result := by
  have stands := standsFor_accumulate digital
  by_cases fits : digitsValue numeral ≤ largestInteger
  · have soFar : (accumulate numeral).tooLarge = false := by
      rw [Bool.eq_false_iff, ne_eq, stands.tooLarge]
      omega
    have bound : largestInteger = 2 ^ 63 - 1 := rfl
    rw [Lexeme.ofDigits, if_pos fits, Reading.result, soFar]
    apply Int64.toInt_inj.mp
    exact (Int64.toInt_ofNat_of_lt (by omega)).trans (stands.value fits).symm
  · have before : (accumulate numeral).tooLarge = true := stands.tooLarge.mpr (by omega)
    rw [Lexeme.ofDigits, if_neg fits, Reading.result, before]
    rfl

end Numeral

theorem Lexeme.first_numeral {numeral rest : Bytes} (nonempty : numeral ≠ [])
    (digital : ∀ byte ∈ numeral, isDigit byte = true)
    (longest : ∀ byte ∈ rest.head?, isDigit byte = false) :
    first (numeral ++ rest) = (ofDigits numeral, numeral.length) := by
  have letter : ∀ byte : UInt8, isDigit byte = true → isNameStart byte = false := by
    decide +kernel
  cases numeral with
  | nil => exact absurd rfl nonempty
  | cons byte others =>
      obtain ⟨here, digital⟩ := List.forall_mem_cons.mp digital
      have stops : rest.takeWhile isDigit = [] := by
        cases rest with
        | nil => rfl
        | cons next rest => rw [List.takeWhile_cons_of_neg (by simp [longest next rfl])]
      rw [List.cons_append, first, if_neg (by simp [letter byte here]), if_pos here,
        List.takeWhile_append_of_pos digital, stops, List.append_nil]

/-- A numeral is an error of its own only if it is too large. -/
theorem Lexeme.error?_ofDigits (position : Position) (numeral : Bytes) :
    Token.error? ⟨position, ofDigits numeral⟩ =
      if digitsValue numeral ≤ largestInteger then none
      else some ⟨position, .integerTooLarge numeral.latin⟩ := by
  rw [ofDigits]
  split <;> rfl

/-! ## Writing one digit after the other -/

namespace Numeral

/-- The octet of the last decimal digit of a word. The remainder has the sign of the word, and only
the remainder is ever negated. -/
def lastDigit (value : Int64) : UInt8 :=
  let remainder := value % 10
  (48 + if remainder < 0 then -remainder else remainder).toUInt64.toUInt8

theorem natAbs_div_ten (value : Int64) :
    (value / 10).toInt.natAbs = value.toInt.natAbs / 10 := by
  rw [toInt_div_ten, natAbs_tdiv_ten]

/-- The digits of a word other than zero, the last one first. -/
def lastDigits (value : Int64) : Bytes :=
  if value = 0 then [] else lastDigit value :: lastDigits (value / 10)
termination_by value.toInt.natAbs
decreasing_by
  have some : value.toInt ≠ 0 := fun zero => ‹¬ value = 0› (Int64.toInt_inj.mp zero)
  rw [natAbs_div_ten]
  omega

/-- The numeral of a word: the digits and the sign, turned around. -/
def ofWord (value : Int64) : Bytes :=
  if value = 0 then [48]
  else (lastDigits value ++ if value < 0 then [45] else []).reverse

def octet (character : Char) : UInt8 :=
  UInt8.ofNat character.toNat

theorem ofString_signedDecimal (number : Int) :
    Bytes.ofString (Text.signedDecimal number) =
      (if number < 0 then [45] else []) ++ (Text.digits 10 number.natAbs).map octet := by
  have minus : Bytes.ofString "-" = [45] := by decide
  have unsigned : ∀ number, Bytes.ofString (Text.decimal number) =
      (Text.digits 10 number).map octet := by
    intro number
    rw [(Text.isAscii_decimal number).ofString_eq.1, Text.toList_decimal]
    rfl
  cases number with
  | ofNat number =>
      have natural : ¬ Int.ofNat number < 0 := Int.not_lt.mpr (Int.natCast_nonneg number)
      rw [Text.signedDecimal, unsigned, if_neg natural]
      rfl
  | negSucc number =>
      rw [Text.signedDecimal, Bytes.ofString_append, unsigned, minus,
        if_pos (Int.negSucc_lt_zero number)]
      rfl

theorem lastDigit_eq (value : Int64) :
    lastDigit value = octet (Text.digit (value.toInt.natAbs % 10)) := by
  have all : ∀ number : Nat, number < 10 →
      (48 + Int64.ofInt number).toUInt64.toUInt8 = octet (Text.digit number) ∧
        (if Int64.ofInt number < 0 then -Int64.ofInt number else Int64.ofInt number) =
          Int64.ofInt number ∧
        (if Int64.ofInt (-number) < 0 then -Int64.ofInt (-number) else Int64.ofInt (-number)) =
          Int64.ofInt number := by
    intro number small
    interval_cases number <;> decide
  have ten : (10 : Int64).toInt = 10 := by decide
  have remainder : (value % 10).toInt = value.toInt.tmod 10 := by rw [Int64.toInt_mod, ten]
  have magnitude : (value.toInt.tmod 10).natAbs = value.toInt.natAbs % 10 :=
    Int.natAbs_tmod value.toInt 10
  obtain ⟨written, plus, minus⟩ := all (value.toInt.natAbs % 10) (by omega)
  -- Whatever its sign is, the remainder is below ten.
  rw [lastDigit, ← Int64.ofInt_toInt (value % 10), remainder]
  obtain same | same := Int.natAbs_eq (value.toInt.tmod 10)
  · rw [magnitude] at same
    simp only [same, plus, written]
  · rw [magnitude] at same
    simp only [same, minus, written]

theorem reverse_lastDigits {value : Int64} (some : value ≠ 0) :
    (lastDigits value).reverse = (Text.digits 10 value.toInt.natAbs).map octet := by
  fun_induction lastDigits value with
  | case1 => exact absurd rfl some
  | case2 value _ induction =>
      rw [List.reverse_cons, lastDigit_eq, Text.digits]
      by_cases last : value / 10 = 0
      · have small : value.toInt.natAbs / 10 = 0 := by rw [← natAbs_div_ten, last]; rfl
        rw [last, lastDigits, if_pos rfl, if_pos (by omega), Nat.mod_eq_of_lt (by omega)]
        rfl
      · have large : value.toInt.natAbs / 10 ≠ 0 := by
          rw [← natAbs_div_ten]
          exact fun zero => last (Int64.toInt_inj.mp (Int.natAbs_eq_zero.mp zero))
        rw [induction last, if_neg (by omega), natAbs_div_ten, List.map_append]
        rfl

theorem digits_zero : (Text.digits 10 0).map octet = [48] := by
  rw [Text.digits, if_pos (by decide)]
  decide

theorem ofWord_eq (value : Int64) : ofWord value = Bytes.ofString (Text.word value) := by
  rw [ofWord, Text.word, ofString_signedDecimal]
  split
  · rename_i zero
    rw [zero]
    exact digits_zero.symm
  · rename_i some
    have negative : value < 0 ↔ value.toInt < 0 := Int64.lt_iff_toInt_lt
    simp only [List.reverse_append, reverse_lastDigits some, negative]
    split <;> rfl

end Numeral

/-! ## The decimal numeral of a number -/

/-- A decimal numeral of a number: a minus sign if the number is negative, and digits that stand for
its magnitude. The first digit is no zero unless it is the only one. -/
inductive IsDecimal : Bytes → Int → Prop
  | intro {digits : Bytes} {number : Int} (nonempty : digits ≠ [])
      (digital : ∀ byte ∈ digits, isDigit byte = true)
      (shortest : digits.head? = some 48 → digits = [48])
      (exact : digitsValue digits = number.natAbs) :
      IsDecimal ((if number < 0 then [45] else []) ++ digits) number

namespace Numeral

theorem isDigit_octet {value : Nat} (small : value < 10) :
    isDigit (octet (Text.digit value)) = true ∧
      (octet (Text.digit value)).toNat - 48 = value := by
  have all : ∀ value < 10, isDigit (octet (Text.digit value)) = true ∧
      (octet (Text.digit value)).toNat - 48 = value := by
    decide
  exact all value small

/-- The written digits of a number are digits, stand for it and do not start with a zero unless
there is nothing else. -/
theorem digits_exact (value : Nat) :
    (∀ byte ∈ (Text.digits 10 value).map octet, isDigit byte = true) ∧
      digitsValue ((Text.digits 10 value).map octet) = value ∧
      ((Text.digits 10 value).map octet ≠ []) ∧
      (((Text.digits 10 value).map octet).head? = some 48 → value = 0) := by
  induction value using Nat.strongRecOn with
  | _ value induction =>
  rw [Text.digits]
  split
  · rename_i small
    obtain ⟨digital, same⟩ := @isDigit_octet value (by omega)
    refine ⟨by simpa using digital, by simpa [digitsValue] using same, by simp, fun zero => ?_⟩
    have octetZero : octet (Text.digit value) = 48 := by simpa using zero
    rw [octetZero] at same
    exact same.symm
  · rename_i large
    obtain ⟨front, number, nonempty, shortest⟩ := induction (value / 10) (by omega)
    obtain ⟨digital, same⟩ := isDigit_octet (Nat.mod_lt value (by decide : 0 < 10))
    rw [List.map_append]
    refine ⟨?_, ?_, by simp, fun zero => ?_⟩
    · simpa [or_imp, forall_and] using ⟨by simpa using front, digital⟩
    · rw [List.map_singleton, digitsValue_append, number, same]
      omega
    · rw [List.head?_append_of_ne_nil _ nonempty] at zero
      have := shortest zero
      omega

theorem eq_digits {digits : Bytes} (nonempty : digits ≠ [])
    (digital : ∀ byte ∈ digits, isDigit byte = true)
    (shortest : digits.head? = some 48 → digits = [48]) :
    digits = (Text.digits 10 (digitsValue digits)).map octet := by
  induction digits using List.reverseRecOn with
  | nil => exact absurd rfl nonempty
  | append_singleton front last induction =>
      have all : ∀ byte : UInt8, isDigit byte = true →
          byte = octet (Text.digit (byte.toNat - 48)) ∧ byte.toNat - 48 ≤ 9 := by
        decide +kernel
      obtain ⟨lastDigit, small⟩ := all last (digital last (by simp))
      have frontDigital := fun byte member => digital byte (List.mem_append_left [last] member)
      rw [digitsValue_append, Text.digits]
      by_cases empty : front = []
      · subst empty
        rw [if_pos (by simp [digitsValue]; omega)]
        simpa [digitsValue] using lastDigit
      · have first := @List.head?_append_of_ne_nil _ front [last] empty
        have noZero : front.head? ≠ some 48 := by
          intro zero
          have whole := congrArg List.length (shortest (first.trans zero))
          have some := List.length_pos_iff.mpr empty
          rw [List.length_append, List.length_singleton, List.length_singleton] at whole
          omega
        have same := induction empty frontDigital fun zero => absurd zero noZero
        have positive : digitsValue front ≠ 0 := by
          intro zero
          rw [zero] at same
          exact noZero (by rw [same, digits_zero]; rfl)
        rw [if_neg (by omega), List.map_append,
          show (10 * digitsValue front + (last.toNat - 48)) / 10 = digitsValue front by omega,
          show (10 * digitsValue front + (last.toNat - 48)) % 10 = last.toNat - 48 by omega,
          ← same, List.map_singleton, ← lastDigit]

end Numeral

theorem isDecimal_iff (text : Bytes) (number : Int) :
    IsDecimal text number ↔ text = Bytes.ofString (Text.signedDecimal number) := by
  rw [Numeral.ofString_signedDecimal]
  constructor
  · rintro ⟨nonempty, digital, shortest, exact⟩
    rw [← exact, ← Numeral.eq_digits nonempty digital shortest]
  · rintro rfl
    obtain ⟨digital, exact, nonempty, shortest⟩ := Numeral.digits_exact number.natAbs
    refine .intro nonempty digital (fun zero => ?_) exact
    rw [shortest zero, Numeral.digits_zero]

/-! ## Numerals as tokens -/

theorem spells_numeral {numeral : Bytes} (nonempty : numeral ≠ [])
    (digital : ∀ byte ∈ numeral, isDigit byte = true) :
    spells (.ofDigits numeral) numeral = true := by
  have apart : ∀ byte : UInt8, isDigit byte = true →
      byte ≠ 0 ∧ isSeparator byte = false ∧ byte ≠ 47 := by
    decide +kernel
  have first := @Lexeme.first_numeral numeral [] nonempty digital (by simp)
  rw [List.append_nil] at first
  have zeroFree : (0 : UInt8) ∉ numeral := fun member => (apart 0 (digital 0 member)).1 rfl
  obtain ⟨byte, others, rfl⟩ := List.exists_cons_of_ne_nil nonempty
  have head := (apart byte (digital byte List.mem_cons_self)).2
  simp [spells, first, zeroFree, head.1, head.2]

theorem tokens_word {value : Int64} (natural : 0 ≤ value) :
    Token.ofSource (Bytes.ofString (Text.word value)) =
      [⟨Position.start, .integer (Text.word value) (some value)⟩,
        ⟨Position.behind (Bytes.ofString (Text.word value)), .endOfInput⟩] := by
  have natural : 0 ≤ value.toInt := Int64.le_iff_toInt_le.mp natural
  have written := Numeral.ofString_signedDecimal value.toInt
  rw [if_neg (Int.not_lt.mpr natural), List.nil_append, ← Text.word] at written
  obtain ⟨digital, exact, nonempty, -⟩ := Numeral.digits_exact value.toInt.natAbs
  rw [← written] at digital exact nonempty
  have lexeme : Lexeme.ofDigits (Bytes.ofString (Text.word value)) =
      .integer (Text.word value) (some value) := by
    have greatest := value.toInt_lt
    have bound : largestInteger = 2 ^ 63 - 1 := rfl
    have number : Int64.ofNat value.toInt.natAbs = value := by
      rw [← Int64.toInt_inj, Int64.toInt_ofNat_of_lt (by omega)]
      omega
    rw [Lexeme.ofDigits, exact, if_pos (by omega), number, (Text.isAscii_word value).latin_ofString]
  have spelled := spells_numeral nonempty digital
  rw [lexeme] at spelled
  rw [Token.ofSource_word_alone spelled (by simp), Position.start_afterAll]

/-- Decimal conversion is exact at the limits of a signed word.

In front of any digits that no digit goes on, of any length and with any leading zeros, a lexer
reads one integer and stands behind the digits afterwards. Wherever the digits stand for at most
`2 ^ 63 - 1`, that number is the value, and no error is added; otherwise the value is zero and one
error is added, which tells the digits. Both are what adding the digits up in wrapping arithmetic
gives, with one division to test each digit. The numeral of every word, which is made one remainder
after the other without changing the sign of the word, is the one decimal numeral of that number,
and it is the text that trees are shown with. If the number is not negative, then reading its
numeral gives nothing but the number. -/
theorem decimal_conversion_is_exact :
    (∀ (lexer start : Lexer) (numeral rest : Bytes), lexer.skip = some start →
      start.Leaves (numeral ++ rest) → numeral ≠ [] →
      (∀ byte ∈ numeral, isDigit byte = true) →
      (∀ byte ∈ rest.head?, isDigit byte = false) →
      ∃ (later : Lexer) (lexeme : Lexeme), lexer.next = some later ∧ later.Leaves rest ∧
        later.current = some ⟨start.position, lexeme⟩ ∧
        lexeme.kindName = "INT" ∧ lexeme.text = numeral.latin ∧
        lexeme.value = (Numeral.accumulate numeral).result ∧
        ((Numeral.accumulate numeral).tooLarge = true ↔ 2 ^ 63 - 1 < digitsValue numeral) ∧
        if digitsValue numeral ≤ 2 ^ 63 - 1 then
          lexeme.value.toInt = digitsValue numeral ∧ later.errors = lexer.errors
        else
          lexeme.value = 0 ∧
            later.errors = lexer.errors ++ [⟨start.position, .integerTooLarge numeral.latin⟩]) ∧
    (∀ value : Int64,
      (∀ text, IsDecimal text value.toInt ↔ text = Numeral.ofWord value) ∧
        Numeral.ofWord value = Bytes.ofString (Text.word value)) ∧
    ∀ value : Int64, 0 ≤ value →
      Token.ofSource (Numeral.ofWord value) =
        [⟨Position.start, .integer (Text.word value) (some value)⟩,
          ⟨Position.behind (Numeral.ofWord value), .endOfInput⟩] := by
  refine ⟨?_, fun value => ⟨fun text => ?_, Numeral.ofWord_eq value⟩, fun value natural => ?_⟩
  · intro lexer start numeral rest skipped leaves nonempty digital longest
    have read := leaves.read
    rw [Lexeme.first_numeral nonempty digital longest, List.take_left] at read
    have stands := Numeral.standsFor_accumulate digital
    have value := Numeral.value_ofDigits digital
    have noted := Lexeme.error?_ofDigits start.position numeral
    refine ⟨_, _, by rw [Lexer.next, skipped]; exact read, leaves.past.take, rfl, rfl, rfl, value,
      stands.tooLarge, ?_⟩
    rw [← Lexer.skip_errors skipped]
    change (if _ ≤ largestInteger then _ else _)
    rw [Numeral.Reading.result] at value
    split
    · rename_i fits
      have soFar : (Numeral.accumulate numeral).tooLarge ≠ true := by
        rw [ne_eq, stands.tooLarge]
        exact Nat.not_lt.mpr fits
      rw [if_neg soFar] at value
      rw [if_pos fits] at noted
      exact ⟨by rw [value, stands.value fits], by simp [Lexer.take, Lexer.past, noted]⟩
    · rename_i large
      rw [if_pos (stands.tooLarge.mpr (Nat.lt_of_not_le large))] at value
      rw [if_neg large] at noted
      exact ⟨value, by simp [Lexer.take, Lexer.past, noted]⟩
  · rw [Numeral.ofWord_eq]
    exact isDecimal_iff text value.toInt
  · rw [Numeral.ofWord_eq]
    exact tokens_word natural

/-- One more than the greatest word, with a blank and two zeros in front of it. -/
theorem decimal_conversion_is_exact_too_large :
    (Lexer.ofSource (Bytes.ofString " 009223372036854775808;")).skip =
        some ((Lexer.ofSource (Bytes.ofString " 009223372036854775808;")).past [32]) ∧
      ∃ (later : Lexer) (lexeme : Lexeme),
        (Lexer.ofSource (Bytes.ofString " 009223372036854775808;")).next = some later ∧
        later.current = some ⟨⟨1, 2⟩, lexeme⟩ ∧ lexeme.value = 0 ∧
        later.errors = [⟨⟨1, 2⟩, .integerTooLarge "009223372036854775808"⟩] := by
  have whole : (Bytes.ofString " 009223372036854775808;").takeWhile (· != 0) =
      [32] ++ Bytes.ofString "009223372036854775808;" := by
    decide
  have leaves := whole ▸ Lexer.leaves_ofSource (Bytes.ofString " 009223372036854775808;")
  have solid : Solid (Bytes.ofString "009223372036854775808;") :=
    ⟨by decide +kernel, by decide +kernel⟩
  have skipped := (leaves.skip_blank (by decide)).trans (leaves.past.skip_solid solid)
  obtain ⟨later, lexeme, read, -, current, -, -, -, -, noted⟩ :=
    decimal_conversion_is_exact.1 _ _ (Bytes.ofString "009223372036854775808") [59] skipped
      leaves.past (by decide +kernel) (by decide +kernel) fun byte first => by cases first; rfl
  rw [if_neg (by decide +kernel)] at noted
  exact ⟨skipped, later, lexeme, read, current, noted.1, noted.2⟩

end ExprLang
