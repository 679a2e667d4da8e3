import ExprLang.Proofs.Syntax.Showing

/-!
# Names of types

A type is written without white space. `Ty.read` works on the characters between the outermost
brackets and passes over white space there, the parser works on tokens; both read a written type
back. Main statement: they do so for every type that programs can write, whatever `Ty.read` accepts
is such a name with white space added to it, and different types have different names.
-/

namespace ExprLang

/-! ## White space -/

theorem filter_dropWhile_not {α : Type} (test : α → Bool) (items : List α) :
    (items.dropWhile test).filter (fun item => !test item) =
      items.filter fun item => !test item := by
  induction items with
  | nil => rfl
  | cons item items induction =>
      rw [List.dropWhile_cons]
      split
      · rename_i passes
        rw [induction, List.filter_cons_of_neg (by simp [passes])]
      · rfl

namespace Text

def squeeze (characters : List Char) : List Char :=
  characters.filter fun character => !isBlank character

theorem squeeze_append (front back : List Char) :
    squeeze (front ++ back) = squeeze front ++ squeeze back :=
  List.filter_append front back

theorem squeeze_trimChars (characters : List Char) :
    squeeze (trimChars characters) = squeeze characters := by
  rw [trimChars, squeeze, List.filter_reverse, filter_dropWhile_not, List.filter_reverse,
    List.reverse_reverse, filter_dropWhile_not, squeeze]

end Text

namespace Ty

/-! ## Reading characters -/

theorem toList_render_array (element : Ty) :
    (array element).render.toList = arrayOpening ++ element.render.toList ++ ['>'] := by
  rw [render, String.toList_append, String.toList_append]
  rfl

theorem elementName?_eq_some_iff {name inner : List Char} :
    elementName? name = some inner ↔ name = arrayOpening ++ inner ++ ['>'] := by
  constructor
  · intro found
    rw [elementName?] at found
    split at found
    · rename_i shape
      rw [Bool.and_eq_true, List.isPrefixOf_iff_prefix, beq_iff_eq] at shape
      rcases shape with ⟨⟨rest, rfl⟩, last⟩
      cases found
      rw [List.drop_left]
      cases rest using List.reverseRecOn with
      | nil => cases last
      | append_singleton rest final =>
          rw [← List.append_assoc, List.getLast?_concat] at last
          cases last
          rw [List.dropLast_concat, List.append_assoc]
    · cases found
  · intro split
    rw [split, elementName?, if_pos]
    · rw [List.append_assoc, List.drop_left, List.dropLast_concat]
    · simp [List.isPrefixOf_iff_prefix]

theorem squeeze_brackets (inner : List Char) :
    Text.squeeze (arrayOpening ++ inner ++ ['>']) =
      arrayOpening ++ Text.squeeze inner ++ ['>'] := by
  have opening : Text.squeeze arrayOpening = arrayOpening := by decide
  have closing : Text.squeeze ['>'] = ['>'] := by decide
  rw [Text.squeeze_append, Text.squeeze_append, opening, closing]

theorem IsProper.squeeze_render {type : Ty} (proper : type.IsProper) :
    Text.squeeze type.render.toList = type.render.toList := by
  induction proper with
  | int | float | bool => decide
  | array _ induction => rw [toList_render_array, squeeze_brackets, induction]

theorem IsProper.trimChars_render {type : Ty} (proper : type.IsProper) :
    Text.trimChars type.render.toList = type.render.toList := by
  apply Text.trimChars_of_forall
  intro character member
  have kept := List.filter_eq_self.mp proper.squeeze_render character member
  simpa using kept

theorem IsProper.read_render {type : Ty} (proper : type.IsProper) :
    read type.render.toList = .ok type := by
  induction proper with
  | int | float | bool => rw [read]; decide
  | @array element proper induction =>
      have trimmed := (IsProper.array proper).trimChars_render
      have inside : elementName? element.array.render.toList = some element.render.toList :=
        elementName?_eq_some_iff.mpr (toList_render_array element)
      have noWord : ∀ word : List Char, word.head? ≠ some 'A' →
          element.array.render.toList ≠ word := by
        intro word other same
        rw [← same, toList_render_array] at other
        exact other rfl
      rw [read]
      simp only [trimmed]
      rw [if_neg (noWord ['I', 'n', 't'] (by decide)),
        if_neg (noWord ['F', 'l', 'o', 'a', 't'] (by decide)),
        if_neg (noWord ['B', 'o', 'o', 'l'] (by decide))]
      split
      · rename_i inner found
        rw [trimmed, inside] at found
        cases found
        rw [induction]
        rfl
      · rename_i none
        rw [trimmed, inside] at none
        cases none

/-- What is read is a type that programs can write, and its name without the white space in it is
what `render` writes. -/
theorem proper_of_read {name : List Char} {type : Ty} (found : read name = .ok type) :
    type.IsProper ∧ Text.squeeze name = type.render.toList := by
  have spelled : ∀ {name word written : List Char}, Text.trimChars name = word →
      Text.squeeze word = written → Text.squeeze name = written := by
    intro name word written trimmed squeezed
    rw [← Text.squeeze_trimChars, trimmed, squeezed]
  fun_induction read name generalizing type with
  | case1 =>
      rename_i word
      cases found
      exact ⟨.int, spelled word (by decide)⟩
  | case2 =>
      rename_i word
      cases found
      exact ⟨.float, spelled word (by decide)⟩
  | case3 =>
      rename_i word
      cases found
      exact ⟨.bool, spelled word (by decide)⟩
  | case4 =>
      rename_i inner between induction
      cases element : read inner with
      | error failure =>
          rw [element] at found
          cases found
      | ok elementType =>
          rw [element] at found
          cases found
          rcases induction element with ⟨proper, same⟩
          apply And.intro (.array proper)
          apply spelled (elementName?_eq_some_iff.mp between)
          rw [squeeze_brackets, same, toList_render_array]
  | case5 => cases found

theorem IsProper.render_inj {type other : Ty} (proper : type.IsProper) (proper' : other.IsProper)
    (same : type.render = other.render) : type = other := by
  have read := proper.read_render
  rw [same, proper'.read_render] at read
  exact (Except.ok.inj read).symm

end Ty

/-! ## Reading tokens -/

namespace Scanner

variable {byte : UInt8} {others rest : Bytes}

theorem tokens_cons {word : Lexeme} (plain : isSeparator byte = false) (other : byte ≠ 47)
    (first : Lexeme.first (byte :: (others ++ rest)) = (word, others.length + 1))
    (some : word ≠ .endOfInput) (position : Position) :
    ∃ later, tokens ⟨position, byte :: (others ++ rest)⟩ =
      ⟨position, word⟩ :: tokens ⟨later, rest⟩ := by
  have start := @skip_eq position byte (others ++ rest) plain other
  have token : (next ⟨position, byte :: (others ++ rest)⟩).1 = ⟨position, word⟩ := by
    simp [next, start, first]
  have behind : (next ⟨position, byte :: (others ++ rest)⟩).2.rest = rest := by
    simp [next, start, first, advance]
  apply Exists.intro (next ⟨position, byte :: (others ++ rest)⟩).2.position
  rw [tokens_eq, token, if_neg some]
  congr 2
  exact congrArg (Scanner.mk _) behind

theorem tokens_word {word : Lexeme} {text : Bytes} (spelled : spells word text = true)
    (letter : text.head?.any isNameStart = true)
    (ends : ∀ other ∈ rest.head?, isNamePart other = false) (position : Position) :
    ∃ later, tokens ⟨position, text ++ rest⟩ = ⟨position, word⟩ :: tokens ⟨later, rest⟩ := by
  cases text with
  | nil => cases letter
  | cons byte others =>
      have start : isNameStart byte = true := letter
      simp only [spells, Bool.and_eq_true, beq_iff_eq] at spelled
      have alone := spelled.1.1
      rw [Lexeme.first, if_pos start, Prod.mk.injEq, List.length_cons, List.length_cons,
        Nat.succ_inj] at alone
      have whole : others.takeWhile isNamePart = others :=
        (List.takeWhile_prefix isNamePart).eq_of_length alone.2
      have stops : rest.takeWhile isNamePart = [] := by
        cases rest with
        | nil => rfl
        | cons next rest => rw [List.takeWhile_cons_of_neg (by simp [ends next rfl])]
      have apart : isSeparator byte = false ∧ byte ≠ 47 := by
        grind [isNameStart, isSeparator]
      apply tokens_cons apart.1 apart.2
      · rw [Lexeme.first, if_pos start,
          List.takeWhile_append_of_pos (List.takeWhile_eq_self_iff.mp whole), stops,
          List.append_nil, ← alone.1, whole]
        rfl
      · rw [← alone.1]
        exact Lexeme.ofName_ne_endOfInput _

theorem tokens_mark {mark : Mark} (single : Mark.ofByte? byte = some mark) (other : byte ≠ 47)
    (ends : ∀ second ∈ rest.head?, Mark.ofPair? byte second = none) (position : Position) :
    ∃ later, tokens ⟨position, byte :: rest⟩ = ⟨position, .mark mark⟩ :: tokens ⟨later, rest⟩ := by
  have all : ∀ byte : UInt8, (Mark.ofByte? byte).isSome = true →
      isSeparator byte = false ∧ isNameStart byte = false ∧ isDigit byte = false := by
    decide +kernel
  rcases all byte (by rw [single]; rfl) with ⟨plain, noName, noDigit⟩
  apply @tokens_cons byte [] rest (.mark mark) plain other
  · have noPair : rest.head?.bind (Mark.ofPair? byte) = none := Option.bind_eq_none_iff.mpr ends
    simp [Lexeme.first, noName, noDigit, noPair, single]
  · simp

end Scanner

namespace Ty

open Grammar

def words : List String :=
  "Array" :: typeNames.map Prod.fst

theorem spells_words {word : String} (listed : word ∈ words) :
    spells (.identifier word) (Bytes.ofString word) = true ∧
      (Bytes.ofString word).head?.any isNameStart = true := by
  have all : ∀ word ∈ words, spells (.identifier word) (Bytes.ofString word) = true ∧
      (Bytes.ofString word).head?.any isNameStart = true := by
    decide
  exact all word listed

theorem ofString_render_array (element : Ty) :
    Bytes.ofString element.array.render =
      Bytes.ofString "Array" ++ 60 :: (Bytes.ofString element.render ++ [62]) := by
  have opening : Bytes.ofString "Array<" = Bytes.ofString "Array" ++ [60] := by decide
  have closing : Bytes.ofString ">" = [62] := by decide
  rw [render, Bytes.ofString_append, Bytes.ofString_append, opening, closing]
  simp

theorem IsProper.letter {type : Ty} (proper : type.IsProper) :
    (Bytes.ofString type.render).head?.any isNameStart = true ∧
      (0 : UInt8) ∉ Bytes.ofString type.render := by
  induction proper with
  | int | float | bool => decide
  | array _ induction =>
      rw [ofString_render_array]
      apply And.intro rfl
      have opening : (0 : UInt8) ∉ Bytes.ofString "Array" := by decide
      simp [opening, induction.2]

section Tokens

variable {rest : Bytes} (closes : ∀ byte ∈ rest.head?, byte = 62) (position : Position)

include closes

theorem derives_named {name : String} {type : Ty} (listed : (name, type) ∈ typeNames) :
    ∃ tokens later, (Scanner.mk position (Bytes.ofString name ++ rest)).tokens =
      tokens ++ (Scanner.mk later rest).tokens ∧ DerivesType tokens type ∧ Clean tokens := by
  have word : name ∈ words := List.mem_cons_of_mem _ (List.mem_map_of_mem listed)
  have noPart : ∀ byte ∈ rest.head?, isNamePart byte = false := by
    intro byte first
    rw [closes byte first]
    decide
  rcases Scanner.tokens_word (spells_words word).1 (spells_words word).2 noPart position with
    ⟨later, split⟩
  exact ⟨[_], later, split, .named rfl listed, by simp [Clean, Token.error?]⟩

/-- The tokens of a written type, in front of a closing bracket or the end of the text, are those of
the type. -/
theorem IsProper.derives {type : Ty} (proper : type.IsProper) :
    ∃ tokens later, (Scanner.mk position (Bytes.ofString type.render ++ rest)).tokens =
      tokens ++ (Scanner.mk later rest).tokens ∧ DerivesType tokens type ∧ Clean tokens := by
  induction proper generalizing rest position with
  | int => exact derives_named closes position (by decide)
  | float => exact derives_named closes position (by decide)
  | bool => exact derives_named closes position (by decide)
  | @array element proper induction =>
      have spelled := @spells_words "Array" (by decide)
      have inName : ∀ byte : UInt8, isNameStart byte = true → Mark.ofPair? 60 byte = none := by
        intro byte letter
        have other : byte ≠ 61 := by
          rintro rfl
          exact absurd letter (by decide)
        simp [Mark.ofPair?, other]
      have noPair : ∀ byte ∈ (Bytes.ofString element.render ++ 62 :: rest).head?,
          Mark.ofPair? 60 byte = none := by
        intro byte first
        apply inName
        have letter := proper.letter.1
        cases written : Bytes.ofString element.render with
        | nil =>
            rw [written] at letter
            cases letter
        | cons head others =>
            rw [written] at letter first
            cases first
            exact letter
      have alone : ∀ byte ∈ rest.head?, Mark.ofPair? 62 byte = none := by
        intro byte first
        rw [closes byte first]
        decide
      rcases @Scanner.tokens_word (60 :: (Bytes.ofString element.render ++ 62 :: rest)) _ _
        spelled.1 spelled.2 (by simp; decide) position with ⟨second, name⟩
      rcases @Scanner.tokens_mark 60 _ .less rfl (by decide) noPair second with
        ⟨third, opening⟩
      rcases @induction (62 :: rest) (by simp) third with ⟨inner, fourth, inside, derives, clean⟩
      rcases @Scanner.tokens_mark 62 _ .greater rfl (by decide) alone fourth with
        ⟨later, closing⟩
      apply Exists.intro (⟨position, .identifier "Array"⟩ :: ⟨second, .mark .less⟩ :: inner ++
        [⟨fourth, .mark .greater⟩])
      apply Exists.intro later
      apply And.intro
      · rw [ofString_render_array]
        simp only [List.append_assoc, List.cons_append, List.nil_append] at *
        rw [name, opening, inside, closing]
      · apply And.intro (.array rfl rfl derives rfl)
        simp only [Clean, List.mem_append, List.mem_cons, List.not_mem_nil, or_false]
        rintro token ((rfl | rfl | member) | rfl)
        · rfl
        · rfl
        · exact clean token member
        · rfl

end Tokens

theorem IsProper.type_render {type : Ty} (proper : type.IsProper) {fuel : Nat}
    (enough : (Cursor.ofSource (Bytes.ofString type.render)).fuel ≤ fuel) :
    ∃ last, Parser.type fuel (Cursor.ofSource (Bytes.ofString type.render)) =
      .ok (type, ⟨⟨last, .endOfInput⟩, [], []⟩) := by
  have whole : (Bytes.ofString type.render).takeWhile (· != 0) = Bytes.ofString type.render := by
    rw [List.takeWhile_eq_self_iff]
    intro byte member
    rw [bne_iff_ne]
    intro zero
    exact proper.letter.2 (zero ▸ member)
  rcases @derives [] (by simp) Position.start type proper with
    ⟨tokens, last, split, derives, clean⟩
  have all : Token.ofSource (Bytes.ofString type.render) = tokens ++ [⟨last, .endOfInput⟩] := by
    rw [Token.ofSource, Scanner.ofSource, whole, ← Scanner.tokens_nil last, ← split,
      List.append_nil]
  have fine : Clean (tokens ++ [⟨last, .endOfInput⟩]) := by
    intro token member
    rcases List.mem_append.mp member with inside | final
    · exact clean token inside
    · cases List.mem_singleton.mp final
      rfl
  have start : Cursor.ofSource (Bytes.ofString type.render) =
      .ofTokens (tokens ++ [⟨last, .endOfInput⟩]) := by
    rw [← all]
    exact Cursor.ofSource_of_clean (all ▸ fine)
  have supplied := (Cursor.stands_ofSource (Bytes.ofString type.render)).2
  apply Exists.intro last
  rw [start]
  apply derives.reads _ [] fuel fine trivial
  rw [supplied, all, List.length_append, List.length_singleton] at enough
  simp only [List.length_nil]
  omega

/-- A type that programs can write is read back from its name, from the characters as well as from
the tokens, where the parser stops at the end of the text. Whatever is read from characters is such
a type, and its name is what was read without the white space in it. Types are equal, and compare as
equal, if and only if their names are. -/
theorem names_are_read_back :
    (∀ type : Ty, type.IsProper →
      parse type.render = .ok type ∧
      ∀ fuel, (Cursor.ofSource (Bytes.ofString type.render)).fuel ≤ fuel →
        ∃ last, Parser.type fuel (Cursor.ofSource (Bytes.ofString type.render)) =
          .ok (type, ⟨⟨last, .endOfInput⟩, [], []⟩)) ∧
    (∀ (name : String) (type : Ty), parse name = .ok type →
      type.IsProper ∧
        name.toList.filter (fun character => !Text.isBlank character) = type.render.toList) ∧
    ∀ type other : Ty, type.IsProper → other.IsProper →
      (type.isEqual other = true ↔ type.render = other.render) ∧
        (type = other ↔ type.render = other.render) := by
  apply And.intro
  · intro type proper
    exact ⟨proper.read_render, fun _ enough => proper.type_render enough⟩
  · apply And.intro
    · intro name type found
      exact proper_of_read found
    · intro type other proper proper'
      have named : type = other ↔ type.render = other.render :=
        ⟨congrArg render, proper.render_inj proper'⟩
      exact ⟨isEqual_iff.trans named, named⟩

end Ty

end ExprLang
