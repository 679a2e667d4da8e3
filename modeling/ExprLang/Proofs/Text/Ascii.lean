import ExprLang.Expr.Printer
import ExprLang.Proofs.Datum.Spelling
import ExprLang.Text.Decimal
import Mathlib.Data.List.Basic

/-!
# Written texts as octets

An ASCII text is written with one octet for each character, and a form is a list with blanks
between its items, so what is written as a `String` can be read as a datum. The two ways of
quoting a text differ only where a character is not printable.
-/

/-!
## Decimal numerals are exact

Main statements: a decimal numeral stands for the number that it was made of, so different numbers
have different numerals.
-/

namespace ExprLang.Text

def isDecimalDigit (character : Char) : Bool :=
  48 ≤ character.toNat && character.toNat ≤ 57

theorem digit_of_lt {value : Nat} (small : value < 10) :
    isDecimalDigit (digit value) = true ∧ (digit value).toNat - 48 = value := by
  have all : ∀ value < 10,
      isDecimalDigit (digit value) = true ∧ (digit value).toNat - 48 = value := by
    decide
  exact all value small

theorem numberOfDigits_append (front : List Char) (last : Char) :
    numberOfDigits (front ++ [last]) = 10 * numberOfDigits front + (last.toNat - 48) := by
  simp [numberOfDigits]

/-- A decimal numeral consists of digits, at least one, and stands for its number. -/
theorem digits_ten (value : Nat) :
    digits 10 value ≠ [] ∧ (∀ character ∈ digits 10 value, isDecimalDigit character = true) ∧
      numberOfDigits (digits 10 value) = value := by
  induction value using Nat.strongRecOn with
  | _ value induction =>
  rw [digits]
  split
  · rename_i small
    have small : value < 10 := by omega
    obtain ⟨isDigit, same⟩ := digit_of_lt small
    exact ⟨by simp, by simpa using isDigit, by simpa [numberOfDigits] using same⟩
  · rename_i large
    obtain ⟨-, front, number⟩ := induction (value / 10) (by omega)
    obtain ⟨isDigit, same⟩ := digit_of_lt (Nat.mod_lt value (by decide : 0 < 10))
    refine ⟨by simp, ?_, ?_⟩
    · simpa [or_imp, forall_and] using ⟨front, isDigit⟩
    · rw [numberOfDigits_append, number, same]
      omega

theorem toList_decimal (value : Nat) : (decimal value).toList = digits 10 value :=
  String.toList_ofList

theorem signedDecimal_injective : Function.Injective signedDecimal := by
  have minus : ∀ value, (digits 10 value).head? ≠ some '-' := by
    intro value first
    have digit := (digits_ten value).2.1 _ (List.mem_of_mem_head? first)
    exact absurd digit (by decide)
  intro left right same
  have same := congrArg String.toList same
  cases left with
  | ofNat left =>
      cases right with
      | ofNat right =>
          rw [signedDecimal, signedDecimal, toList_decimal, toList_decimal] at same
          rw [← (digits_ten left).2.2, same, (digits_ten right).2.2]
      | negSucc right =>
          rw [signedDecimal, signedDecimal, toList_decimal, String.toList_append] at same
          exact absurd (by rw [same]; rfl) (minus left)
  | negSucc left =>
      cases right with
      | ofNat right =>
          rw [signedDecimal, signedDecimal, toList_decimal, String.toList_append] at same
          exact absurd (by rw [← same]; rfl) (minus right)
      | negSucc right =>
          rw [signedDecimal, signedDecimal, String.toList_append, String.toList_append,
            List.append_cancel_left_eq, toList_decimal, toList_decimal] at same
          have numbers := congrArg numberOfDigits same
          rw [(digits_ten _).2.2, (digits_ten _).2.2] at numbers
          rw [Nat.succ.inj numbers]

end ExprLang.Text

/-! ## Octets -/

namespace ExprLang

namespace Bytes

@[simp] theorem ofString_append (first second : String) :
    ofString (first ++ second) = ofString first ++ ofString second := by
  simp [ofString]

theorem ofString_intercalate (texts : List String) :
    ofString (String.intercalate " " texts) = Datum.Kind.spaced (texts.map ofString) := by
  have blank : ofString " " = [32] := by decide
  induction texts with
  | nil => rfl
  | cons text texts induction =>
      cases texts with
      | nil => simp [Datum.Kind.spaced]
      | cons next others =>
          rw [String.intercalate_cons_of_ne_nil (List.cons_ne_nil _ _), ofString_append,
            ofString_append, blank, induction]
          simp [Datum.Kind.spaced]

end Bytes

namespace Text

theorem ofString_form (head : String) (items : List String) :
    Bytes.ofString (form head items) =
      Datum.Kind.list.write [] (Bytes.ofString head :: items.map Bytes.ofString) := by
  have opening : Bytes.ofString "(" = [40] := by decide
  have closing : Bytes.ofString ")" = [41] := by decide
  rw [form, Bytes.ofString_append, Bytes.ofString_append, Bytes.ofString_intercalate, opening,
    closing, List.map_cons, Datum.Kind.write]

/-! ## ASCII -/

def IsAscii (text : String) : Prop :=
  ∀ character ∈ text.toList, 0 < character.toNat ∧ character.toNat < 128

instance (text : String) : Decidable (IsAscii text) :=
  List.decidableBAll _ text.toList

theorem IsAscii.exists_latin {text : String} (ascii : IsAscii text) :
    ∃ bytes : Bytes, bytes = text.toList.map (fun character => UInt8.ofNat character.toNat) ∧
      Datum.IsPlain bytes ∧ text = bytes.latin := by
  have number : ∀ character ∈ text.toList,
      (UInt8.ofNat character.toNat).toNat = character.toNat := by
    intro character member
    have small := (ascii character member).2
    rw [UInt8.toNat_ofNat', Nat.mod_eq_of_lt (by omega)]
  refine ⟨_, rfl, ?_, ?_⟩
  · intro byte member
    obtain ⟨character, listed, rfl⟩ := List.mem_map.mp member
    obtain ⟨some, small⟩ := ascii character listed
    refine ⟨fun zero => ?_, ?_⟩
    · have same := number character listed
      rw [zero, UInt8.toNat_zero] at same
      omega
    · rw [UInt8.lt_iff_toNat_lt, number character listed]
      exact small
  · rw [Bytes.latin, List.map_map]
    refine String.ofList_toList.symm.trans (congrArg String.ofList ?_)
    refine (List.map_id _).symm.trans (List.map_congr_left fun character member => ?_)
    rw [Function.comp_apply, number character member, Char.ofNat_toNat, id]

theorem IsAscii.ofString_eq {text : String} (ascii : IsAscii text) :
    Bytes.ofString text =
        text.toList.map (fun character => UInt8.ofNat character.toNat) ∧
      Datum.IsPlain (Bytes.ofString text) := by
  obtain ⟨bytes, listed, plain, rfl⟩ := ascii.exists_latin
  rw [ofString_latin fun byte member => (plain byte member).2]
  exact ⟨listed, plain⟩

theorem IsAscii.latin_ofString {text : String} (ascii : IsAscii text) :
    (Bytes.ofString text).latin = text := by
  obtain ⟨bytes, -, plain, rfl⟩ := ascii.exists_latin
  rw [ofString_latin fun byte member => (plain byte member).2]

theorem IsAscii.ofString_inj {first second : String} (left : IsAscii first)
    (right : IsAscii second) (same : Bytes.ofString first = Bytes.ofString second) :
    first = second := by
  rw [← left.latin_ofString, same, right.latin_ofString]

/-! ## Quotes -/

theorem escapeMarks_map (bytes : Bytes) :
    escapeMarks (bytes.map fun byte => Char.ofNat byte.toNat) =
      (Datum.Kind.escape bytes).map fun byte => Char.ofNat byte.toNat := by
  have mark : ∀ byte : UInt8, (Char.ofNat byte.toNat == '"' || Char.ofNat byte.toNat == '\\') =
      (byte == 34 || byte == 92) := by decide +kernel
  induction bytes with
  | nil => rfl
  | cons byte bytes induction =>
      rw [List.map_cons, escapeMarks, mark, Datum.Kind.escape, List.flatMap_cons, List.map_append,
        ← Datum.Kind.escape, ← induction]
      split <;> simp

theorem IsAscii.ofString_quoteMarks {text : String} (ascii : IsAscii text) :
    Bytes.ofString (quoteMarks text) = Datum.Kind.string.write (Bytes.ofString text) [] := by
  obtain ⟨bytes, -, plain, rfl⟩ := ascii.exists_latin
  have whole : quoteMarks bytes.latin = Bytes.latin ([34] ++ Datum.Kind.escape bytes ++ [34]) := by
    rw [quoteMarks, Bytes.latin, String.toList_ofList, escapeMarks_map, Bytes.latin]
    simp
  have small : ∀ byte ∈ [34] ++ Datum.Kind.escape bytes ++ [34], byte < 128 := by
    have inner := fun byte member => (plain.escape byte member).2
    simpa [or_imp, forall_and] using inner
  rw [whole, ofString_latin small, ofString_latin fun byte member => (plain byte member).2,
    Datum.Kind.write]

theorem quote_eq_quoteMarks {text : String}
    (printable : ∀ character ∈ text.toList, isPrintable character = true) :
    quote text = quoteMarks text := by
  have inner : ∀ characters : List Char, (∀ character ∈ characters, isPrintable character = true) →
      (String.join (characters.map escape)).toList = escapeMarks characters := by
    intro characters
    induction characters with
    | nil => exact fun _ => rfl
    | cons character characters induction =>
        intro printable
        obtain ⟨here, others⟩ := List.forall_mem_cons.mp printable
        rw [List.map_cons, String.join_cons, String.toList_append, induction others, escapeMarks,
          escape]
        by_cases mark : character = '"'
        · simp [mark]
        · by_cases slash : character = '\\' <;> simp [mark, slash, here]
  rw [quote, quoteMarks, ← String.toList_inj, String.toList_append, String.toList_append,
    inner _ printable, String.toList_ofList, String.toList_ofList]
  rfl

/-! ## Numerals -/

theorem isAscii_decimal (value : Nat) : IsAscii (decimal value) := by
  intro character member
  rw [toList_decimal] at member
  have digit := (digits_ten value).2.1 character member
  simp only [isDecimalDigit, Bool.and_eq_true, decide_eq_true_eq] at digit
  omega

theorem isNumeral_decimal (value : Nat) :
    Bytes.ofString (decimal value) ≠ [] ∧
      ∀ byte ∈ Bytes.ofString (decimal value), Datum.isDigit byte = true := by
  obtain ⟨nonempty, digits, -⟩ := digits_ten value
  rw [(isAscii_decimal value).ofString_eq.1, toList_decimal]
  refine ⟨by simpa using nonempty, fun byte member => ?_⟩
  obtain ⟨character, listed, rfl⟩ := List.mem_map.mp member
  have digit := digits character listed
  simp only [isDecimalDigit, Bool.and_eq_true, decide_eq_true_eq] at digit
  simp only [Datum.isDigit, Bool.and_eq_true, decide_eq_true_eq, UInt8.le_iff_toNat_le,
    UInt8.toNat_ofNat']
  rw [Nat.mod_eq_of_lt (by omega)]
  exact digit

theorem isNumeral_word (value : Int64) : Datum.IsNumeral (Bytes.ofString (word value)) := by
  have minus : Bytes.ofString "-" = [45] := by decide
  rw [word]
  cases value.toInt with
  | ofNat value =>
      obtain ⟨nonempty, digits⟩ := isNumeral_decimal value
      exact .plain nonempty digits
  | negSucc value =>
      obtain ⟨nonempty, digits⟩ := isNumeral_decimal (value + 1)
      rw [signedDecimal, Bytes.ofString_append, minus]
      exact .signed (by decide) nonempty digits

theorem isAscii_word (value : Int64) : IsAscii (word value) := by
  rw [word]
  cases value.toInt with
  | ofNat value => exact isAscii_decimal value
  | negSucc value =>
      intro character member
      rw [signedDecimal, String.toList_append, List.mem_append] at member
      rcases member with minus | digit
      · rw [show character = '-' by simpa using minus]
        decide
      · exact isAscii_decimal _ character digit

theorem word_injective : Function.Injective word :=
  fun _ _ same => Int64.toInt_inj.mp (signedDecimal_injective same)

end Text

end ExprLang
