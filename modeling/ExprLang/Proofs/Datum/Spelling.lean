import ExprLang.Datum.Reader
import ExprLang.Proofs.Token.Spelling

/-!
# How tokens of data are spelled

A symbol, a numeral or a string is read back from its spelling if what follows cannot belong to
it, and whatever is read as one of them has such a spelling.
-/

namespace ExprLang.Datum

/-! ## Texts of atoms -/

/-- A letter, or a sign that no digit follows, and then octets that can stand in a symbol. -/
inductive IsName : Bytes → Prop
  | intro {byte : UInt8} {rest : Bytes}
      (start : isLetter byte = true ∨ isSign byte = true ∧ rest.head?.any isDigit = false)
      (parts : ∀ part ∈ rest, isSymbolPart part = true) : IsName (byte :: rest)

inductive IsNumeral : Bytes → Prop
  | plain {digits : Bytes} (nonempty : digits ≠ []) (all : ∀ byte ∈ digits, isDigit byte = true) :
      IsNumeral digits
  | signed {sign : UInt8} {digits : Bytes} (isSign : isSign sign = true) (nonempty : digits ≠ [])
      (all : ∀ byte ∈ digits, isDigit byte = true) : IsNumeral (sign :: digits)

def IsPlain (text : Bytes) : Prop :=
  ∀ byte ∈ text, byte ≠ 0 ∧ byte < 128

/-- An octet that ends whatever is being read: a blank or a closing bracket. -/
def isDelimiter (byte : UInt8) : Bool :=
  byte == 32 || byte == 41 || byte == 93

/-- What can follow a datum that has been written: nothing, a blank or a closing bracket. -/
def Delimited (rest : Bytes) : Prop :=
  ∀ byte ∈ rest.head?, isDelimiter byte = true

theorem delimited_nil : Delimited [] := by
  simp [Delimited]

theorem delimited_cons {byte : UInt8} (rest : Bytes) (ends : isDelimiter byte = true) :
    Delimited (byte :: rest) := by
  simpa [Delimited] using ends

/-! ## Octets -/

theorem noPart_of_isDelimiter {byte : UInt8} (ends : isDelimiter byte = true) :
    isSymbolPart byte = false ∧ isDigit byte = false := by
  simp only [isDelimiter, Bool.or_eq_true, beq_iff_eq] at ends
  rcases ends with (rfl | rfl) | rfl <;> decide

theorem of_isLetter_or_isSign {byte : UInt8} (start : isLetter byte = true ∨ isSign byte = true) :
    isSpace byte = false ∧ byte ≠ 59 ∧ Token.ofBracket? byte = none ∧ byte ≠ 34 ∧ byte ≠ 46 ∧
      byte ≠ 0 ∧ isDigit byte = false := by
  have differs : ∀ {other : UInt8}, isLetter other = false ∧ isSign other = false →
      byte ≠ other := by
    rintro other neither rfl
    simp [neither] at start
  have noBracket : Token.ofBracket? byte = none := by
    simp only [Token.ofBracket?, beq_iff_eq, @differs 40 (by decide), @differs 41 (by decide),
      @differs 91 (by decide), @differs 93 (by decide), if_false]
  have noSpace : isSpace byte = false := by
    rcases start with letter | sign <;> grind [isSpace, isLetter, isSign]
  have noDigit : isDigit byte = false := by
    rcases start with letter | sign <;> grind [isDigit, isLetter, isSign]
  exact ⟨noSpace, differs (by decide), noBracket, differs (by decide), differs (by decide),
    differs (by decide), noDigit⟩

theorem of_isDigit {byte : UInt8} (digit : isDigit byte = true) :
    isSpace byte = false ∧ byte ≠ 59 ∧ Token.ofBracket? byte = none ∧ byte ≠ 34 ∧ byte ≠ 46 ∧
      byte ≠ 0 ∧ isSymbolPart byte = true := by
  grind [isDigit, isSpace, Token.ofBracket?, isSymbolPart]

theorem Token.of_ofBracket? {byte : UInt8} {bracket : Token}
    (found : Token.ofBracket? byte = some bracket) :
    isSpace byte = false ∧ byte ≠ 59 ∧ ∀ error, bracket ≠ .bad error := by
  simp only [Token.ofBracket?, beq_iff_eq] at found
  split_ifs at found with round round' square square' <;> cases found <;> subst byte <;>
    exact ⟨by decide, by decide, by simp⟩

theorem ne_zero_of_isSymbolPart {byte : UInt8} (part : isSymbolPart byte = true) : byte ≠ 0 := by
  rintro rfl
  exact absurd part (by decide)

theorem IsName.ne_zero {text : Bytes} (name : IsName text) : ∀ byte ∈ text, byte ≠ 0 := by
  obtain @⟨first, rest, start, parts⟩ := name
  refine List.forall_mem_cons.mpr ⟨?_, fun byte member => ne_zero_of_isSymbolPart (parts _ member)⟩
  exact (of_isLetter_or_isSign (start.imp_right And.left)).2.2.2.2.2.1

theorem IsNumeral.ne_zero {text : Bytes} (numeral : IsNumeral text) : ∀ byte ∈ text, byte ≠ 0 := by
  have digits : ∀ {digits : Bytes}, (∀ byte ∈ digits, isDigit byte = true) →
      ∀ byte ∈ digits, byte ≠ 0 :=
    fun all byte member => (of_isDigit (all byte member)).2.2.2.2.2.1
  cases numeral with
  | plain _ all => exact digits all
  | signed sign _ all =>
      exact List.forall_mem_cons.mpr
        ⟨(of_isLetter_or_isSign (.inr sign)).2.2.2.2.2.1, digits all⟩

theorem isName_of_all {text : Bytes} (start : text.head?.any isLetter = true)
    (parts : text.all isSymbolPart = true) : IsName text := by
  cases text with
  | nil => cases start
  | cons byte rest =>
      rw [List.all_cons, Bool.and_eq_true] at parts
      exact .intro (.inl (by simpa using start)) (List.all_eq_true.mp parts.2)

theorem takeWhile_append {test : UInt8 → Bool} {text rest : Bytes}
    (all : ∀ byte ∈ text, test byte = true) (stops : ∀ byte ∈ rest.head?, test byte = false) :
    (text ++ rest).takeWhile test = text := by
  rw [List.takeWhile_append_of_pos all]
  cases rest with
  | nil => simp
  | cons byte rest =>
      rw [List.takeWhile_cons_of_neg (by simp [stops byte rfl]), List.append_nil]

/-! ## Strings -/

theorem readString_backslash {byte : UInt8} (rest : Bytes)
    (escaped : (byte == 34 || byte == 92) = true) :
    readString (92 :: byte :: rest) =
      (readString rest).map fun (text, count) => (byte :: text, count + 2) := by
  rw [Bool.or_eq_true, beq_iff_eq, beq_iff_eq] at escaped
  rcases escaped with rfl | rfl <;> simp [readString]

theorem readString_plain {byte : UInt8} (rest : Bytes) (plain : byte < 128)
    (other : (byte == 34 || byte == 92) = false) :
    readString (byte :: rest) =
      (readString rest).map fun (text, count) => (byte :: text, count + 1) := by
  rw [Bool.or_eq_false_iff, beq_eq_false_iff_ne, beq_eq_false_iff_ne] at other
  have same : Bytes.ofString (Bytes.latin [byte]) = [byte] := ofString_latin (by simpa using plain)
  rw [readString.eq_7 byte rest other.1 (fun _ marked _ => other.2 marked)
    (fun _ marked _ => other.2 marked) (fun _ marked _ => other.2 marked) other.2, same]
  rfl

theorem readString_escape {text : Bytes} (plain : IsPlain text) (rest : Bytes) :
    readString (Kind.escape text ++ 34 :: rest) = .ok (text, (Kind.escape text).length) := by
  induction text with
  | nil => simp [Kind.escape, readString]
  | cons byte text induction =>
      have inner := induction fun other member => plain other (List.mem_cons_of_mem _ member)
      simp only [Kind.escape, List.flatMap_cons, List.append_assoc] at inner ⊢
      split
      · rename_i marked
        rw [List.cons_append, List.cons_append, List.nil_append, readString_backslash _ marked,
          inner]
        simp [Except.map]
      · rename_i unmarked
        rw [List.cons_append, List.nil_append,
          readString_plain _ (plain byte List.mem_cons_self).2 (by simpa using unmarked), inner]
        simp [Except.map]

theorem IsPlain.tail {byte : UInt8} {text : Bytes} (plain : IsPlain (byte :: text)) :
    IsPlain text :=
  fun other member => plain other (List.mem_cons_of_mem _ member)

theorem IsPlain.escape {text : Bytes} (plain : IsPlain text) : IsPlain (Kind.escape text) := by
  intro byte member
  obtain ⟨other, inside, member⟩ := List.mem_flatMap.mp member
  have here := plain other inside
  split at member
  · rcases List.mem_pair.mp member with rfl | rfl
    · decide
    · exact here
  · rwa [List.mem_singleton.mp member]

theorem isPlain_of_map (front : Bytes) {rest text : Bytes} {count width : Nat}
    (plain : IsPlain front)
    (inner : ∀ {text count}, readString rest = .ok (text, count) → IsPlain text)
    (found : (readString rest).map (fun (text, count) => (front ++ text, count + width)) =
      .ok (text, count)) : IsPlain text := by
  cases later : readString rest with
  | error error => simp [later, Except.map] at found
  | ok result =>
      simp only [later, Except.map, Except.ok.injEq, Prod.mk.injEq] at found
      obtain ⟨rfl, -⟩ := found
      intro byte member
      rcases List.mem_append.mp member with here | there
      · exact plain byte here
      · exact inner later byte there

theorem isPlain_of_readString {source text : Bytes} {count : Nat} (plain : IsPlain source)
    (found : readString source = .ok (text, count)) : IsPlain text := by
  fun_induction readString source generalizing text count with
  | case1 | case6 => cases found
  | case2 =>
      cases found
      simp [IsPlain]
  | case3 rest induction =>
      exact isPlain_of_map [34] (by simp [IsPlain]) (induction plain.tail.tail) found
  | case4 rest induction =>
      exact isPlain_of_map [92] (by simp [IsPlain]) (induction plain.tail.tail) found
  | case5 rest induction =>
      exact isPlain_of_map [10] (by simp [IsPlain]) (induction plain.tail.tail) found
  | case7 byte rest _ _ _ _ _ induction =>
      have here := plain byte List.mem_cons_self
      rw [ofString_latin (by simpa using here.2)] at found
      exact isPlain_of_map [byte] (by simpa [IsPlain] using here)
        (induction plain.tail) found

/-! ## Tokens of a text -/

namespace Token

@[simp] theorem tokens_nil : tokens [] = [] := by
  rw [tokens]
  rfl

@[simp] theorem tokens_blank (rest : Bytes) : tokens (32 :: rest) = tokens rest := by
  have same : skip false (32 :: rest) = skip false rest := rfl
  rw [tokens, tokens, same]

theorem tokens_cons {byte : UInt8} {rest : Bytes} {token : Token} {length : Nat}
    (noSpace : isSpace byte = false) (noComment : byte ≠ 59)
    (found : first byte rest = (token, length)) (good : ∀ error, token ≠ .bad error) :
    tokens (byte :: rest) = token :: tokens (rest.drop (length - 1)) := by
  have solid : skip false (byte :: rest) = byte :: rest := by simp [skip, noSpace, noComment]
  rw [tokens, solid]
  dsimp only
  rw [found]
  cases token with
  | bad error => exact absurd rfl (good error)
  | atom | opening | closing => rfl

/-- A token is read back from its spelling, whatever can follow a written datum. -/
def Spells (token : Token) (spelling : Bytes) : Prop :=
  ∀ rest, Delimited rest → tokens (spelling ++ rest) = token :: tokens rest

theorem tokens_bracket (byte : UInt8) {bracket : Token} (found : ofBracket? byte = some bracket)
    (rest : Bytes) : tokens (byte :: rest) = bracket :: tokens rest := by
  obtain ⟨noSpace, noComment, good⟩ := of_ofBracket? found
  have first : first byte rest = (bracket, 1) := by simp only [first, found]
  exact tokens_cons noSpace noComment first good

theorem spells_symbol {text : Bytes} (name : IsName text) : Spells (.atom (symbol text)) text := by
  intro rest delimited
  obtain @⟨byte, others, start, parts⟩ := name
  have begins : isLetter byte = true ∨ isSign byte = true := start.imp_right And.left
  obtain ⟨noSpace, noComment, noBracket, noMark, noPoint, -, noDigit⟩ :=
    of_isLetter_or_isSign begins
  have stops : ∀ byte ∈ rest.head?, isSymbolPart byte = false :=
    fun byte next => (noPart_of_isDelimiter (delimited byte next)).1
  -- A sign starts a symbol because what follows is no digit, also if it stands alone.
  have noNumeral : (isSign byte && (others ++ rest).head?.any isDigit) = false := by
    rw [Bool.and_eq_false_imp]
    intro sign
    rcases start with letter | ⟨-, alone⟩
    · simp only [isSign, Bool.or_eq_true, beq_iff_eq] at sign
      rcases sign with rfl | rfl <;> exact absurd letter (by decide)
    · cases others with
      | cons part others => simpa using alone
      | nil =>
          rw [List.nil_append]
          cases next : rest.head? with
          | none => rfl
          | some byte => exact (noPart_of_isDelimiter (delimited byte next)).2
  have found : first byte (others ++ rest) =
      (.atom (symbol (byte :: others)), others.length + 1) := by
    simp only [first, noBracket, beq_iff_eq, noMark, noPoint, noDigit, noNumeral, Bool.false_or,
      Bool.or_eq_true, begins, takeWhile_append parts stops]
    rfl
  rw [List.cons_append, tokens_cons noSpace noComment found (by simp), Nat.add_sub_cancel,
    List.drop_left]

theorem spells_integer {text : Bytes} (numeral : IsNumeral text) :
    Spells (.atom (integer text)) text := by
  intro rest delimited
  have stops : ∀ byte ∈ rest.head?, isDigit byte = false :=
    fun byte next => (noPart_of_isDelimiter (delimited byte next)).2
  obtain ⟨byte, digits, rfl, noSpace, noComment, found⟩ : ∃ byte digits, text = byte :: digits ∧
      isSpace byte = false ∧ byte ≠ 59 ∧ first byte (digits ++ rest) =
        (.atom (integer (byte :: digits)), digits.length + 1) := by
    cases numeral with
    | plain nonempty all =>
        obtain ⟨byte, digits, rfl⟩ := List.exists_cons_of_ne_nil nonempty
        have digit := all byte List.mem_cons_self
        obtain ⟨noSpace, noComment, noBracket, noMark, noPoint, -⟩ := of_isDigit digit
        refine ⟨byte, digits, rfl, noSpace, noComment, ?_⟩
        simp [first, noBracket, noMark, noPoint, digit,
          takeWhile_append (fun other member => all other (List.mem_cons_of_mem _ member)) stops]
    | @signed sign digits isSign nonempty all =>
        obtain ⟨noSpace, noComment, noBracket, noMark, noPoint, -⟩ :=
          of_isLetter_or_isSign (.inr isSign)
        have next : (digits ++ rest).head?.any isDigit = true := by
          obtain ⟨byte, others, rfl⟩ := List.exists_cons_of_ne_nil nonempty
          simpa using all byte List.mem_cons_self
        refine ⟨sign, _, rfl, noSpace, noComment, ?_⟩
        simp only [first, noBracket, beq_iff_eq, noMark, noPoint, isSign, next, Bool.and_self,
          Bool.or_true, takeWhile_append all stops]
        rfl
  rw [List.cons_append, tokens_cons noSpace noComment found (by simp), Nat.add_sub_cancel,
    List.drop_left]

theorem spells_string {text : Bytes} (plain : IsPlain text) :
    Spells (.atom (string text)) (Kind.string.write text []) := by
  intro rest _
  have found : first 34 (Kind.escape text ++ 34 :: rest) =
      (.atom (string text), (Kind.escape text).length + 2) := by
    simp [first, ofBracket?, readString_escape plain rest]
  have spelling : Kind.string.write text [] ++ rest =
      34 :: (Kind.escape text ++ 34 :: rest) := by simp [Kind.write]
  have behind : (Kind.escape text ++ 34 :: rest).drop ((Kind.escape text).length + 1) = rest := by
    rw [← List.drop_drop, List.drop_left]
    rfl
  rw [spelling, tokens_cons (by decide) (by decide) found (by simp)]
  exact congrArg _ (congrArg tokens behind)

theorem write_ellipsis : Kind.ellipsis.write [] [] = [46, 46, 46] := by decide

theorem spells_ellipsis : Spells (.atom ellipsis) (Kind.ellipsis.write [] []) := by
  intro rest _
  have found : first 46 (46 :: 46 :: rest) = (.atom ellipsis, 3) := by
    simp [first, ofBracket?]
  rw [write_ellipsis]
  exact tokens_cons (by decide) (by decide) found (by simp)

end Token

/-! ## What is read -/

namespace Token

inductive Atom (rest : Bytes) : Datum → Prop
  | symbol {text : Bytes} (name : IsName text) : Atom rest (.symbol text)
  | string {text : Bytes} {count : Nat} (read : readString rest = .ok (text, count)) :
      Atom rest (.string text)
  | integer {text : Bytes} (numeral : IsNumeral text) : Atom rest (.integer text)
  | ellipsis : Atom rest .ellipsis

theorem any_head?_takeWhile {test other : UInt8 → Bool} {text : Bytes}
    (none : text.head?.any test = false) : (text.takeWhile other).head?.any test = false := by
  cases text with
  | nil => rfl
  | cons byte text =>
      rw [List.takeWhile_cons]
      split
      · simpa using none
      · rfl

theorem takeWhile_ne_nil {test : UInt8 → Bool} {text : Bytes}
    (some : text.head?.any test = true) : text.takeWhile test ≠ [] := by
  cases text with
  | nil => simp at some
  | cons byte text => simpa using some

theorem atom_of_first {byte : UInt8} {rest : Bytes} {datum : Datum} {length : Nat}
    (found : first byte rest = (.atom datum, length)) : Atom rest datum := by
  unfold first at found
  split at found
  · rename_i bracket isBracket
    cases found
    simp only [ofBracket?] at isBracket
    split_ifs at isBracket <;> cases isBracket
  · split at found
    · split at found <;> cases found
      rename_i text count read
      exact .string read
    · split at found
      · split at found <;> cases found
        exact .ellipsis
      · split at found
        · rename_i numeral
          cases found
          have digits : ∀ digit ∈ rest.takeWhile isDigit, isDigit digit = true :=
            fun _ member => List.mem_takeWhile_imp member
          rcases Bool.or_eq_true _ _ ▸ numeral with digit | signed
          · exact .integer (.plain (by simp) (List.forall_mem_cons.mpr ⟨digit, digits⟩))
          · obtain ⟨sign, next⟩ := Bool.and_eq_true _ _ ▸ signed
            exact .integer (.signed sign (takeWhile_ne_nil next) digits)
        · rename_i noNumeral
          split at found <;> cases found
          rename_i begins
          obtain ⟨noDigit, unsigned⟩ := Bool.or_eq_false_iff.mp (Bool.eq_false_iff.mpr noNumeral)
          refine .symbol (.intro ?_ fun _ member => List.mem_takeWhile_imp member)
          refine (Bool.or_eq_true _ _ ▸ begins).imp_right fun sign => ⟨sign, ?_⟩
          rw [sign, Bool.true_and] at unsigned
          exact any_head?_takeWhile unsigned

theorem skip_suffix (inComment : Bool) (text : Bytes) : skip inComment text <:+ text := by
  induction text generalizing inComment with
  | nil => exact List.suffix_refl _
  | cons byte rest induction =>
      rw [skip]
      split_ifs
      · exact (induction _).trans (List.suffix_cons _ _)
      · exact (induction _).trans (List.suffix_cons _ _)
      · exact (induction _).trans (List.suffix_cons _ _)
      · exact List.suffix_refl _

theorem atom_of_mem_tokens {text : Bytes} {datum : Datum} (member : .atom datum ∈ tokens text) :
    ∃ rest, rest <:+ text ∧ Atom rest datum := by
  induction length : text.length using Nat.strong_induction_on generalizing text with
  | _ count induction =>
  have suffix := skip_suffix false text
  rw [tokens] at member
  split at member
  · cases member
  · rename_i byte rest found
    rw [found] at suffix
    have inside : rest <:+ text := (List.suffix_cons byte rest).trans suffix
    split at member
    · simp at member
    · rename_i token width _ read
      rcases List.mem_cons.mp member with rfl | later
      · exact ⟨rest, inside, atom_of_first read⟩
      · have shorter : (rest.drop (width - 1)).length < count := by
          have := suffix.length_le
          rw [List.length_cons] at this
          rw [List.length_drop]
          omega
        obtain ⟨behind, within, atom⟩ := induction _ shorter later rfl
        exact ⟨behind, within.trans ((List.drop_suffix _ _).trans inside), atom⟩

end Token

def IsSymbol (text : Bytes) : Prop :=
  ∃ source, Token.atom (symbol text) ∈ Token.ofText source

theorem isSymbol_iff {text : Bytes} : IsSymbol text ↔ IsName text := by
  constructor
  · rintro ⟨source, member⟩
    obtain ⟨rest, -, atom⟩ := Token.atom_of_mem_tokens member
    cases atom
    assumption
  · intro name
    refine ⟨text, ?_⟩
    have alone := Token.spells_symbol name [] delimited_nil
    have whole : text.takeWhile (· != 0) = text :=
      List.takeWhile_eq_self_iff.mpr fun byte member => by simpa using name.ne_zero byte member
    rw [List.append_nil] at alone
    rw [Token.ofText, whole, alone]
    exact List.mem_cons_self

end ExprLang.Datum
