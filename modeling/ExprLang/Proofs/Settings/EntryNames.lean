import ExprLang.Proofs.Syntax.TypeNames
import ExprLang.Proofs.Token.Segmentation
import ExprLang.Settings

/-!
# Names of entry functions

Settings are asked for the name of a function long before there is a program, so the form of a name
is decided twice: character by character when settings are validated, and octet by octet when a
program is read. Main statement: the two agree on every text but the reserved words, which pass as
names in settings although no program can define a function with such a name.
-/

namespace ExprLang

/-! ## The form of a name -/

/-- A text is spelled as a name: a letter or an underscore, and then letters, digits and
underscores. -/
def NameSpelled (text : String) : Prop :=
  ∃ first others, text = Bytes.latin (first :: others) ∧ isNameStart first = true ∧
    ∀ byte ∈ others, isNamePart byte = true

theorem NameSpelled.ofString_eq {first : UInt8} {others : Bytes}
    (start : isNameStart first = true) (parts : ∀ byte ∈ others, isNamePart byte = true) :
    Bytes.ofString (Bytes.latin (first :: others)) = first :: others := by
  refine ofString_latin fun byte member => lt_of_isNamePart ?_
  obtain rfl | member := List.mem_cons.mp member
  · rw [isNamePart, start, Bool.true_or]
  · exact parts byte member

namespace Settings

theorem lt_of_isNameLetter {character : Char}
    (part : (isNameLetter character || character.isDigit) = true) :
    0 < character.toNat ∧ character.toNat < 128 := by
  simp only [isNameLetter, Char.isAlpha, Char.isUpper, Char.isLower, Char.isDigit, Bool.or_eq_true,
    Bool.and_eq_true, beq_iff_eq, decide_eq_true_eq, ge_iff_le, UInt32.le_iff_toNat_le] at part
  change (character = '_' ∨ (65 ≤ character.toNat ∧ character.toNat ≤ 90) ∨
    (97 ≤ character.toNat ∧ character.toNat ≤ 122)) ∨
    (48 ≤ character.toNat ∧ character.toNat ≤ 57) at part
  obtain (rfl | upper | lower) | digit := part
  · decide
  all_goals omega

theorem isNameLetter_ofNat (byte : UInt8) :
    isNameLetter (Char.ofNat byte.toNat) = isNameStart byte ∧
      (isNameLetter (Char.ofNat byte.toNat) || (Char.ofNat byte.toNat).isDigit) =
        isNamePart byte := by
  have all : ∀ byte : UInt8, isNameLetter (Char.ofNat byte.toNat) = isNameStart byte ∧
      (isNameLetter (Char.ofNat byte.toNat) || (Char.ofNat byte.toNat).isDigit) =
        isNamePart byte := by
    decide +kernel
  exact all byte

theorem isFunctionName_latin (first : UInt8) (others : Bytes) :
    isFunctionName (Bytes.latin (first :: others)) =
      (isNameStart first && others.all isNamePart) := by
  rw [isFunctionName, Bytes.latin, String.toList_ofList, List.map_cons]
  simp only [(isNameLetter_ofNat _).1, List.all_map]
  congr 2
  funext byte
  exact (isNameLetter_ofNat byte).2

theorem isFunctionName_iff (text : String) : isFunctionName text = true ↔ NameSpelled text := by
  constructor
  · intro accepted
    have ascii : Text.IsAscii text := by
      intro character member
      apply lt_of_isNameLetter
      rw [isFunctionName] at accepted
      split at accepted
      · cases accepted
      · rename_i first rest characters
        rw [Bool.and_eq_true, List.all_eq_true] at accepted
        rw [characters] at member
        obtain rfl | member := List.mem_cons.mp member
        · rw [accepted.1, Bool.true_or]
        · exact accepted.2 character member
    obtain ⟨bytes, -, -, rfl⟩ := ascii.exists_latin
    cases bytes with
    | nil => cases accepted
    | cons first others =>
        rw [isFunctionName_latin, Bool.and_eq_true, List.all_eq_true] at accepted
        exact ⟨first, others, rfl, accepted⟩
  · rintro ⟨first, others, rfl, start, parts⟩
    rw [isFunctionName_latin, Bool.and_eq_true, List.all_eq_true]
    exact ⟨start, parts⟩

theorem badEntry_notMem_iff (settings : Settings) :
    (∀ name, Issue.badEntry name ∉ settings.issues) ↔ NameSpelled settings.entry := by
  rw [← isFunctionName_iff]
  simp [issues]

end Settings

/-! ## Names as tokens -/

/-- A text that a program can use as a name: it is read as one name, which is the whole text, and
nothing follows it. -/
def IsIdentifier (text : String) : Prop :=
  Token.ofSource (Bytes.ofString text) =
    [⟨Position.start, .identifier text⟩,
      ⟨Position.behind (Bytes.ofString text), .endOfInput⟩]

theorem spells_ofName {text : String} (spelled : NameSpelled text) :
    spells (.ofName text) (Bytes.ofString text) = true ∧
      (Bytes.ofString text).head?.any isNameStart = true := by
  obtain ⟨first, others, rfl, start, parts⟩ := spelled
  have apart : ∀ byte : UInt8, isNamePart byte = true →
      byte ≠ 0 ∧ isSeparator byte = false ∧ byte ≠ 47 := by
    decide +kernel
  have part : isNamePart first = true := by rw [isNamePart, start, Bool.true_or]
  have zeroFree : (0 : UInt8) ∉ first :: others := by
    intro member
    obtain rfl | member := List.mem_cons.mp member
    · exact (apart 0 part).1 rfl
    · exact (apart 0 (parts 0 member)).1 rfl
  have whole : others.takeWhile isNamePart = others := List.takeWhile_eq_self_iff.mpr parts
  rw [NameSpelled.ofString_eq start parts]
  refine ⟨?_, start⟩
  simp [spells, Lexeme.first, start, whole, apart first part] at zeroFree ⊢
  exact zeroFree

theorem ofName_of_unreserved {text : String} (unreserved : ∀ word : Keyword, word.text ≠ text) :
    Lexeme.ofName text = .identifier text := by
  have absent : Keyword.ofText? text = none :=
    List.find?_eq_none.mpr fun word _ => by simpa using unreserved word
  rw [Lexeme.ofName, absent]

theorem nameSpelled_of_mem {source : Bytes} {token : Token} {name : String}
    (member : token ∈ Token.ofSource source) (named : token.lexeme = .identifier name) :
    NameSpelled name ∧ ∀ word : Keyword, word.text ≠ name := by
  obtain ⟨bytes, rfl, parts⟩ := Scanner.isWord_tokens _ member named
  obtain ⟨spelling, rest, spells⟩ := @Scanner.forall_tokens
    (fun lexeme => ∃ spelling rest, Spells lexeme spelling rest)
    (fun text => ⟨_, _, Lexeme.spells_first text⟩) _ token member
  rw [named] at spells
  cases spells with
  | @identifier _ first others _ spelled start parts' noKeyword =>
      rw [ofString_latin fun byte member => lt_of_isNamePart (parts byte member)] at spelled
      exact ⟨⟨first, others, by rw [spelled], start, parts'⟩, noKeyword⟩

theorem isIdentifier_iff (text : String) :
    IsIdentifier text ↔ NameSpelled text ∧ ∀ word : Keyword, word.text ≠ text := by
  constructor
  · intro identifier
    rw [IsIdentifier] at identifier
    exact nameSpelled_of_mem (identifier ▸ List.mem_cons_self) rfl
  · rintro ⟨spelled, unreserved⟩
    have word := (spells_ofName spelled).1
    rw [ofName_of_unreserved unreserved] at word
    rw [IsIdentifier, Token.ofSource_word_alone word (by simp), Position.start_afterAll]

/-! ## Names of functions -/

namespace Grammar

theorem DerivesProgram.exists_name {tokens : List Token} {found : List (Definition Position)}
    (derives : DerivesProgram tokens found) : ∀ definition ∈ found, ∃ token ∈ tokens,
      token.lexeme = .identifier definition.name := by
  induction derives with
  | empty => simp
  | @definition tokens rest definition definitions first others induction =>
      intro other member
      obtain rfl | member := List.mem_cons.mp member
      · obtain ⟨starts, named, _, _, _, _⟩ := first
        exact ⟨_, by simp, named⟩
      · obtain ⟨token, listed, named⟩ := induction other member
        exact ⟨token, List.mem_append_right _ listed, named⟩

end Grammar

theorem isIdentifier_of_definition {source : Bytes} {definitions : List (Definition Position)}
    (parsed : parseProgram source = .ok definitions) {definition : Definition Position}
    (member : definition ∈ definitions) : IsIdentifier definition.name := by
  obtain ⟨-, derives⟩ := (Grammar.recognizes_programs.parse_eq_ok source definitions).mp parsed
  obtain ⟨token, listed, named⟩ := derives.exists_name definition member
  exact (isIdentifier_iff _).mpr (nameSpelled_of_mem (List.dropLast_subset _ listed) named)

theorem Scanner.tokens_blank {byte : UInt8} (separator : isSeparator byte = true) (rest : Bytes)
    (position : Position) :
    tokens ⟨position, byte :: rest⟩ = tokens ⟨position.after byte, rest⟩ := by
  have same : next ⟨position, byte :: rest⟩ = next ⟨position.after byte, rest⟩ := by
    simp [next, skip, skipFrom, separator]
  rw [tokens_eq, same, ← tokens_eq]

/-- A program that defines nothing but a function that gives zero. -/
def Program.defining (name : String) : Bytes :=
  Bytes.ofString ("fn " ++ name ++ "() \x7b 0 \x7d")

theorem tokens_behind_name (position : Position) :
    ∃ opening closing left digit right last,
      (Scanner.mk position (Bytes.ofString "() \x7b 0 \x7d")).tokens =
        [⟨opening, .mark .leftParen⟩, ⟨closing, .mark .rightParen⟩, ⟨left, .mark .leftBrace⟩,
          ⟨digit, Grammar.zero⟩, ⟨right, .mark .rightBrace⟩, ⟨last, .endOfInput⟩] := by
  have text : Bytes.ofString "() \x7b 0 \x7d" = [40, 41, 32, 123, 32, 48, 32, 125] := by decide
  have blank : isSeparator 32 = true := by decide
  obtain ⟨first, opened⟩ := @Scanner.tokens_mark 40 [41, 32, 123, 32, 48, 32, 125] .leftParen rfl
    (by decide) (by rintro _ ⟨⟩; rfl) position
  obtain ⟨second, closed⟩ := @Scanner.tokens_mark 41 [32, 123, 32, 48, 32, 125] .rightParen rfl
    (by decide) (by rintro _ ⟨⟩; rfl) first
  obtain ⟨third, left⟩ := @Scanner.tokens_mark 123 [32, 48, 32, 125] .leftBrace rfl
    (by decide) (by rintro _ ⟨⟩; rfl) (second.after 32)
  obtain ⟨fourth, digit⟩ := @Scanner.tokens_cons 48 [] [32, 125] Grammar.zero
    (by decide) (by decide) (by decide +kernel) (by decide) (third.after 32)
  obtain ⟨fifth, right⟩ := @Scanner.tokens_mark 125 [] .rightBrace rfl
    (by decide) (by rintro _ ⟨⟩) (fourth.after 32)
  rw [List.nil_append] at digit
  rw [text, opened, closed, Scanner.tokens_blank blank, left, Scanner.tokens_blank blank, digit,
    Scanner.tokens_blank blank, right, Scanner.tokens_nil]
  exact ⟨_, _, _, _, _, _, rfl⟩

theorem tokens_defining {name : String} (identifier : IsIdentifier name) :
    ∃ place opening closing left digit right last, Token.ofSource (Program.defining name) =
      [⟨Position.start, .keyword .fn⟩, ⟨place, .identifier name⟩, ⟨opening, .mark .leftParen⟩,
        ⟨closing, .mark .rightParen⟩, ⟨left, .mark .leftBrace⟩, ⟨digit, Grammar.zero⟩,
        ⟨right, .mark .rightBrace⟩, ⟨last, .endOfInput⟩] := by
  obtain ⟨spelled, unreserved⟩ := (isIdentifier_iff name).mp identifier
  obtain ⟨word, letter⟩ := spells_ofName spelled
  rw [ofName_of_unreserved unreserved] at word
  have opening : Bytes.ofString "fn " = [102, 110] ++ [32] := by decide
  have closing : (0 : UInt8) ∉ Bytes.ofString "() \x7b 0 \x7d" := by decide
  have zeroFree : (0 : UInt8) ∉ Bytes.ofString name := by
    simp only [spells, Bool.and_eq_true, Bool.not_eq_true', List.contains_eq_mem,
      decide_eq_false_iff_not] at word
    exact word.1.2
  have whole : (Program.defining name).takeWhile (· != 0) = Program.defining name := by
    rw [List.takeWhile_eq_self_iff]
    intro byte member
    rw [bne_iff_ne]
    rintro rfl
    simp [Program.defining, Bytes.ofString_append, opening, zeroFree, closing] at member
  rw [Token.ofSource, Scanner.ofSource, whole, Program.defining, Bytes.ofString_append,
    Bytes.ofString_append, opening, List.append_assoc, List.append_assoc]
  obtain ⟨first, function⟩ := @Scanner.tokens_word ([32] ++ (Bytes.ofString name ++
    Bytes.ofString "() \x7b 0 \x7d")) (.keyword .fn) [102, 110] (by decide) (by decide)
    (by rintro _ ⟨⟩; rfl) Position.start
  have ends : ∀ other ∈ (Bytes.ofString "() \x7b 0 \x7d").head?, isNamePart other = false := by
    rintro _ ⟨⟩
    rfl
  obtain ⟨second, named⟩ := Scanner.tokens_word word letter ends (first.after 32)
  obtain ⟨opening, closing, left, digit, right, last, behind⟩ := tokens_behind_name second
  rw [function, List.singleton_append, Scanner.tokens_blank (by decide), named, behind]
  exact ⟨_, _, _, _, _, _, _, rfl⟩

theorem parse_defining {name : String} (identifier : IsIdentifier name) :
    ∃ position, parseProgram (Program.defining name) =
      .ok [⟨name, [], .integer position 0, Position.start⟩] := by
  obtain ⟨place, opening, closing, left, digit, right, last, tokens⟩ := tokens_defining identifier
  refine ⟨digit, (Grammar.recognizes_programs.parse_eq_ok _ _).mpr ⟨?_, ?_⟩⟩
  · rw [tokens]
    simp [Clean, Token.error?, Grammar.zero]
  · rw [Token.words, tokens]
    have nothing : Grammar.DerivesParameters [] [] := .empty
    exact .definition (.function rfl rfl rfl nothing rfl
      (.block rfl (.last (Grammar.derives_zero rfl)) rfl)) .empty

/-- Settings complain about the name of the entry function unless a program can use it as a name or
it is a reserved word; no reserved word can be used as a name. A name can be used if and only if
one program defines a function with it, and then the shortest such program is read as the
definition of that function and of nothing else. -/
theorem entry_names_are_identifiers_or_reserved (settings : Settings) :
    ((∀ name, Settings.Issue.badEntry name ∉ settings.issues) ↔
      IsIdentifier settings.entry ∨ ∃ word : Keyword, word.text = settings.entry) ∧
    (∀ word : Keyword, ¬ IsIdentifier word.text) ∧
    (IsIdentifier settings.entry ↔ ∃ position, parseProgram (Program.defining settings.entry) =
      .ok [⟨settings.entry, [], .integer position 0, Position.start⟩]) ∧
    (IsIdentifier settings.entry ↔ ∃ source definitions, parseProgram source = .ok definitions ∧
      ∃ definition ∈ definitions, definition.name = settings.entry) := by
  have reserved : ∀ word : Keyword, ¬ IsIdentifier word.text := fun word identifier =>
    ((isIdentifier_iff _).mp identifier).2 word rfl
  have spelled : ∀ word : Keyword, NameSpelled word.text := by
    intro word
    rw [← Settings.isFunctionName_iff]
    cases word <;> decide
  refine ⟨?_, reserved, ⟨parse_defining, ?_⟩, ?_, ?_⟩
  · rw [Settings.badEntry_notMem_iff, isIdentifier_iff]
    constructor
    · intro name
      by_cases found : ∃ word : Keyword, word.text = settings.entry
      · exact .inr found
      · exact .inl ⟨name, not_exists.mp found⟩
    · rintro (⟨name, -⟩ | ⟨word, same⟩)
      · exact name
      · exact same ▸ spelled word
  · rintro ⟨position, parsed⟩
    exact isIdentifier_of_definition parsed List.mem_cons_self
  · intro identifier
    obtain ⟨position, parsed⟩ := parse_defining identifier
    exact ⟨_, _, parsed, _, List.mem_cons_self, rfl⟩
  · rintro ⟨source, definitions, parsed, definition, member, same⟩
    exact same ▸ isIdentifier_of_definition parsed member

/-- Settings let a reserved word pass as the name of the entry function. -/
theorem reserved_entry_passes :
    ({ entry := "fn" } : Settings).validate = .ok () ∧
      ¬ IsIdentifier "fn" ∧
      ¬ ∀ settings : Settings, (∀ name, Settings.Issue.badEntry name ∉ settings.issues) ↔
        IsIdentifier settings.entry := by
  have passes : ({ entry := "fn" } : Settings).issues = [] := by decide
  have other : ¬ IsIdentifier "fn" := fun identifier =>
    ((isIdentifier_iff _).mp identifier).2 .fn rfl
  refine ⟨by rw [Settings.validate, dif_pos passes], other, fun all => other ?_⟩
  exact (all { entry := "fn" }).mp (by simp [passes])

end ExprLang
