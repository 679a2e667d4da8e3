import ExprLang.Token.Scanner
import Mathlib.Data.FinEnum
import Mathlib.Data.List.TakeWhile

/-!
# What stands between tokens, and how tokens are spelled

Main statement: a text that starts with neither a blank nor a comment starts with the spelling of
the lexeme that the scanner finds there, and that spelling is the longest.
-/

namespace ExprLang

/-! ## Gaps -/

/-- Only blanks and comments stand in a text in front of what is left of it. A comment goes on to
the end of its line. -/
inductive Gap : Bytes → Bytes → Prop
  | none (rest : Bytes) : Gap rest rest
  | blank {byte : UInt8} {text rest : Bytes} (separator : isSeparator byte = true)
      (gap : Gap text rest) : Gap (byte :: text) rest
  | comment {text rest : Bytes} (slashes : [47, 47] <+: text)
      (gap : Gap (text.dropWhile (· != 10)) rest) : Gap text rest

structure Solid (text : Bytes) : Prop where
  noBlank : ∀ byte ∈ text.head?, isSeparator byte = false
  noComment : ¬ [47, 47] <+: text

theorem dropWhile_line_length_lt {text : Bytes} (slashes : [47, 47] <+: text) :
    (text.dropWhile (· != 10)).length < text.length := by
  obtain ⟨others, rfl⟩ := slashes
  rw [List.cons_append, List.dropWhile_cons_of_pos (by decide)]
  exact Nat.lt_succ_of_le (List.dropWhile_suffix _).length_le

theorem Gap.exists_solid (text : Bytes) : ∃ rest, Gap text rest ∧ Solid rest := by
  induction length : text.length using Nat.strong_induction_on generalizing text with
  | _ count induction =>
  by_cases slashes : [47, 47] <+: text
  · obtain ⟨rest, gap, solid⟩ :=
      induction _ (length ▸ dropWhile_line_length_lt slashes) _ rfl
    exact ⟨rest, .comment slashes gap, solid⟩
  · cases text with
    | nil => exact ⟨[], .none [], by simp, slashes⟩
    | cons byte text =>
        by_cases separator : isSeparator byte = true
        · obtain ⟨rest, gap, solid⟩ := induction _ (by simp [← length]) text rfl
          exact ⟨rest, .blank separator gap, solid⟩
        · exact ⟨_, .none _, by simpa using separator, slashes⟩

namespace Scanner

theorem skipFrom_solid {text : Bytes} (solid : Solid text) (position : Position) :
    skipFrom false position text = ⟨position, text⟩ := by
  cases text with
  | nil => rfl
  | cons byte text =>
      have slashes : (byte == 47 && text.head? == some 47) = false := by
        rw [Bool.eq_false_iff]
        intro both
        simp only [Bool.and_eq_true, beq_iff_eq, List.head?_eq_some_iff] at both
        obtain ⟨rfl, others, rfl⟩ := both
        exact solid.noComment ⟨others, rfl⟩
      simp [skipFrom, solid.noBlank byte rfl, slashes]

theorem skipFrom_true (position : Position) (text : Bytes) :
    skipFrom true position text =
      skipFrom false (position.afterAll (text.takeWhile (· != 10))) (text.dropWhile (· != 10)) := by
  induction text generalizing position with
  | nil => rfl
  | cons byte text induction =>
      rw [skipFrom, if_pos rfl]
      by_cases feed : byte = 10
      · subst feed
        rfl
      · have goesOn : (byte != 10) = true := by simpa using feed
        rw [List.takeWhile_cons, List.dropWhile_cons, goesOn, induction]
        rfl

theorem skipFrom_comment {text : Bytes} (slashes : [47, 47] <+: text) (position : Position) :
    skipFrom false position text =
      skipFrom false (position.afterAll (text.takeWhile (· != 10))) (text.dropWhile (· != 10)) := by
  obtain ⟨others, rfl⟩ := slashes
  rw [← skipFrom_true]
  rfl

end Scanner

/-! ## Spellings -/

inductive Spells : Lexeme → Bytes → Bytes → Prop
  | identifier {name : String} {first : UInt8} {others rest : Bytes}
      (spelled : Bytes.ofString name = first :: others) (start : isNameStart first = true)
      (parts : ∀ byte ∈ others, isNamePart byte = true)
      (noKeyword : ∀ word : Keyword, word.text ≠ name)
      (longest : ∀ byte ∈ rest.head?, isNamePart byte = false) :
      Spells (.identifier name) (first :: others) rest
  | keyword (word : Keyword) {rest : Bytes}
      (longest : ∀ byte ∈ rest.head?, isNamePart byte = false) :
      Spells (.keyword word) (Bytes.ofString word.text) rest
  | integer {numeral : String} {digits rest : Bytes}
      (spelled : Bytes.ofString numeral = digits) (nonempty : digits ≠ [])
      (all : ∀ byte ∈ digits, isDigit byte = true)
      (longest : ∀ byte ∈ rest.head?, isDigit byte = false) :
      Spells (.integer numeral (if digitsValue digits ≤ largestInteger then
        some (Int64.ofNat (digitsValue digits)) else none)) digits rest
  | mark (sign : Mark) {rest : Bytes}
      (longest : ∀ first, Bytes.ofString sign.text = [first] →
        ∀ second ∈ rest.head?, Mark.ofPair? first second = none) :
      Spells (.mark sign) (Bytes.ofString sign.text) rest
  | illegal {byte : UInt8} {rest : Bytes} (noName : isNameStart byte = false)
      (noDigit : isDigit byte = false) (noMark : Mark.ofByte? byte = none)
      (noPair : ∀ second ∈ rest.head?, Mark.ofPair? byte second = none) :
      Spells (.illegal byte) [byte] rest
  | endOfInput : Spells .endOfInput [] []

theorem Spells.eq_text {lexeme : Lexeme} {spelling rest : Bytes}
    (spells : Spells lexeme spelling rest) (legal : ∀ byte, lexeme ≠ .illegal byte) :
    spelling = Bytes.ofString lexeme.text := by
  cases spells with
  | identifier spelled => exact spelled.symm
  | keyword word => rfl
  | integer spelled => exact spelled.symm
  | mark sign => rfl
  | @illegal byte => exact absurd rfl (legal byte)
  | endOfInput => rfl

theorem ofString_latin {bytes : Bytes} (plain : ∀ byte ∈ bytes, byte < 128) :
    Bytes.ofString bytes.latin = bytes := by
  have one : ∀ byte : UInt8, byte < 128 →
      String.utf8EncodeChar (Char.ofNat byte.toNat) = [byte] := by
    decide +kernel
  rw [Bytes.ofString, Bytes.latin, String.toList_ofList, List.flatMap_map]
  induction bytes with
  | nil => rfl
  | cons byte bytes induction =>
      rw [List.flatMap_cons, one byte (plain byte List.mem_cons_self),
        induction fun other member => plain other (List.mem_cons_of_mem _ member)]
      rfl

theorem lt_of_isNamePart {byte : UInt8} (part : isNamePart byte = true) : byte < 128 := by
  grind [isNamePart, isNameStart, isDigit]

theorem Mark.text_of_ofByte? {byte : UInt8} {sign : Mark} (found : ofByte? byte = some sign) :
    Bytes.ofString sign.text = [byte] := by
  have all : ∀ byte : UInt8, (ofByte? byte).all fun sign =>
      decide (Bytes.ofString sign.text = [byte]) := by
    decide +kernel
  simpa [found] using all byte

theorem Mark.text_of_ofPair? {first second : UInt8} {sign : Mark}
    (found : ofPair? first second = some sign) : Bytes.ofString sign.text = [first, second] := by
  have all : ∀ byte : UInt8, (ofPair? byte 61).all fun sign =>
      decide (Bytes.ofString sign.text = [byte, 61]) := by
    decide +kernel
  by_cases same : second = 61
  · subst same
    simpa [found] using all first
  · simp [ofPair?, same] at found

namespace Lexeme

theorem longest_dropWhile (test : UInt8 → Bool) (text : Bytes) :
    ∀ byte ∈ (text.dropWhile test).head?, test byte = false := by
  intro byte first
  have := List.head?_dropWhile_not test text
  rw [Option.mem_def.mp first] at this
  simpa using this

theorem spells_ofName {first : UInt8} {others : Bytes} (start : isNameStart first = true)
    (parts : ∀ byte ∈ others, isNamePart byte = true) {rest : Bytes}
    (longest : ∀ byte ∈ rest.head?, isNamePart byte = false) :
    Spells (ofName (Bytes.latin (first :: others))) (first :: others) rest := by
  have spelled : Bytes.ofString (Bytes.latin (first :: others)) = first :: others := by
    refine ofString_latin fun byte member => lt_of_isNamePart ?_
    obtain rfl | member := List.mem_cons.mp member
    · rw [isNamePart, start, Bool.true_or]
    · exact parts byte member
  rw [ofName]
  split
  · rename_i word found
    have same := List.find?_some found
    rw [← spelled, ← eq_of_beq same]
    exact .keyword word longest
  · rename_i absent
    refine .identifier spelled start parts (fun word same => ?_) longest
    have all : ∀ word : Keyword, word ∈ Keyword.all := by intro word; cases word <;> decide
    have differs := List.find?_eq_none.mp absent word (all word)
    exact differs (by simpa using same)

theorem spells_ofDigits {digits rest : Bytes} (nonempty : digits ≠ [])
    (all : ∀ byte ∈ digits, isDigit byte = true)
    (longest : ∀ byte ∈ rest.head?, isDigit byte = false) :
    Spells (ofDigits digits) digits rest := by
  refine .integer (ofString_latin fun byte member => lt_of_isNamePart ?_) nonempty all longest
  rw [isNamePart, all byte member, Bool.or_true]

theorem take_takeWhile (test : UInt8 → Bool) (text : Bytes) :
    text.take (text.takeWhile test).length = text.takeWhile test :=
  List.prefix_iff_eq_take.mp (List.takeWhile_prefix test) |>.symm

theorem drop_takeWhile (test : UInt8 → Bool) (text : Bytes) :
    text.drop (text.takeWhile test).length = text.dropWhile test := by
  have split := List.takeWhile_append_dropWhile (p := test) (l := text)
  nth_rewrite 2 [← split]
  exact List.drop_left

theorem spells_first (text : Bytes) :
    Spells (first text).1 (text.take (first text).2) (text.drop (first text).2) := by
  cases text with
  | nil => exact .endOfInput
  | cons byte text =>
      rw [first]
      split
      · rename_i start
        simp only [List.length_cons, List.take_succ_cons, List.drop_succ_cons, take_takeWhile,
          drop_takeWhile]
        exact spells_ofName start (fun _ member => List.mem_takeWhile_imp member)
          (longest_dropWhile isNamePart text)
      · split
        · rename_i noName digit
          simp only [List.length_cons, List.take_succ_cons, List.drop_succ_cons, take_takeWhile,
            drop_takeWhile]
          refine spells_ofDigits (by simp) ?_ (longest_dropWhile isDigit text)
          exact List.forall_mem_cons.mpr
            ⟨digit, fun _ member => List.mem_takeWhile_imp member⟩
        · rename_i noName noDigit
          split
          · rename_i sign found
            obtain ⟨second, head, pair⟩ := Option.bind_eq_some_iff.mp found
            obtain ⟨others, rfl⟩ := List.head?_eq_some_iff.mp head
            have spelled := Mark.text_of_ofPair? pair
            rw [show (byte :: second :: others).take 2 = Bytes.ofString sign.text from
              spelled.symm]
            refine .mark sign fun first single => ?_
            rw [spelled] at single
            cases single
          · rename_i noPair
            have alone : ∀ second ∈ text.head?, Mark.ofPair? byte second = none :=
              Option.bind_eq_none_iff.mp noPair
            split
            · rename_i sign found
              have spelled := Mark.text_of_ofByte? found
              rw [show (byte :: text).take 1 = Bytes.ofString sign.text from spelled.symm]
              refine .mark sign fun first single => ?_
              rw [spelled] at single
              cases single
              exact alone
            · rename_i noMark
              exact .illegal (by simpa using noName) (by simpa using noDigit) noMark alone

end Lexeme

end ExprLang
