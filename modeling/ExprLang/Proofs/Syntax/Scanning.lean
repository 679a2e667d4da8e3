import ExprLang.Proofs.Syntax.Soundness

/-!
# Tokens of a text

The tokens of a text end with the end of input, and names are words. A line feed keeps what
stands before it apart from what stands behind it: the tokens of both are those of the one and
then those of the other.
-/

namespace ExprLang

/-! ## Names -/

def IsWord (name : String) : Prop :=
  ∃ bytes : Bytes, name = bytes.latin ∧ ∀ byte ∈ bytes, isNamePart byte = true

/-- A name is a word: it has no white space in it, and no angle bracket. -/
def Plain (name : String) : Prop :=
  ∀ character ∈ name.toList, Text.isBlank character = false ∧ character ≠ '<'

theorem IsWord.forall {name : String} (word : IsWord name) {property : Char → Prop}
    (parts : ∀ byte : UInt8, isNamePart byte = true → property (Char.ofNat byte.toNat)) :
    ∀ character ∈ name.toList, property character := by
  obtain ⟨bytes, rfl, all⟩ := word
  intro character member
  rw [Bytes.latin, String.toList_ofList] at member
  obtain ⟨byte, listed, rfl⟩ := List.mem_map.mp member
  exact parts byte (all byte listed)

theorem IsWord.plain {name : String} (word : IsWord name) : Plain name :=
  word.forall <| by decide +kernel

theorem Lexeme.isWord_first {text : Bytes} {name : String}
    (found : (first text).1 = .identifier name) : IsWord name := by
  cases text with
  | nil => cases found
  | cons byte rest =>
      rw [first] at found
      split at found
      · rename_i start
        simp only [ofName] at found
        split at found
        · cases found
        · cases found
          refine ⟨_, rfl, fun other member => ?_⟩
          rcases List.mem_cons.mp member with rfl | later
          · rw [isNamePart, start, Bool.true_or]
          · exact List.mem_takeWhile_imp later
      · split at found
        · simp [ofDigits] at found
        · repeat' split at found
          all_goals cases found

theorem Text.trimChars_of_forall {characters : List Char}
    (plain : ∀ character ∈ characters, isBlank character = false) :
    trimChars characters = characters := by
  have kept : ∀ characters : List Char, (∀ character ∈ characters, isBlank character = false) →
      characters.dropWhile isBlank = characters := by
    intro characters fine
    cases characters with
    | nil => rfl
    | cons character characters => simp [fine character (by simp)]
  rw [trimChars, kept _ plain, kept _ (by simpa using plain), List.reverse_reverse]

theorem listed_of_parse {name : String} {type : Ty} (plain : Plain name)
    (parsed : Ty.parse name = .ok type) : (name, type) ∈ Grammar.typeNames := by
  have trimmed : Text.trimChars name.toList = name.toList :=
    Text.trimChars_of_forall fun character member => (plain character member).1
  have outer : Ty.elementName? name.toList = none := by
    rw [Ty.elementName?, if_neg]
    intro shape
    have opened : Ty.arrayOpening <+: name.toList := by simp_all
    exact (plain '<' (opened.subset (by decide))).2 rfl
  rw [Ty.parse, Ty.read] at parsed
  simp only [trimmed] at parsed
  have spelled : ∀ {text : List Char}, name.toList = text → name = String.ofList text := by
    rintro text rfl
    exact String.ofList_toList.symm
  split at parsed
  · rename_i same
    cases parsed
    exact spelled same ▸ by decide
  · split at parsed
    · rename_i same
      cases parsed
      exact spelled same ▸ by decide
    · split at parsed
      · rename_i same
        cases parsed
        exact spelled same ▸ by decide
      · split at parsed
        · rename_i found
          rw [trimmed, outer] at found
          cases found
        · cases parsed

/-! ## The end of input -/

theorem Scanner.tokens_eq (scanner : Scanner) :
    scanner.tokens = if scanner.next.1.lexeme = .endOfInput then [scanner.next.1]
      else scanner.next.1 :: scanner.next.2.tokens := by
  rw [tokens]

theorem Scanner.ended_tokens (scanner : Scanner) : Ended scanner.tokens := by
  fun_induction tokens scanner with
  | case1 scanner token finished => exact ⟨[], token, rfl, finished, by simp⟩
  | case2 scanner token more induction =>
      obtain ⟨front, last, split, isLast, others⟩ := induction
      refine ⟨token :: front, last, by rw [split]; rfl, isLast, fun other member => ?_⟩
      rcases List.mem_cons.mp member with rfl | later
      · exact more
      · exact others other later

/-- What holds of whatever a text can start with holds of all tokens. -/
theorem Scanner.forall_tokens {property : Lexeme → Prop}
    (first : ∀ text, property (Lexeme.first text).1) (scanner : Scanner) :
    ∀ token ∈ scanner.tokens, property token.lexeme := by
  fun_induction tokens scanner with
  | case1 scanner token finished =>
      intro other member
      rw [List.mem_singleton.mp member]
      exact first _
  | case2 scanner token more induction =>
      intro other member
      rcases List.mem_cons.mp member with rfl | later
      · exact first _
      · exact induction other later

theorem Scanner.isWord_tokens (scanner : Scanner) {token : Token}
    (member : token ∈ scanner.tokens) {name : String} (named : token.lexeme = .identifier name) :
    IsWord name := by
  have words : ∀ text name, (Lexeme.first text).1 = .identifier name → IsWord name :=
    fun _ _ found => Lexeme.isWord_first found
  exact @forall_tokens (fun lexeme => ∀ name, lexeme = .identifier name → IsWord name) words scanner
    token member name named

/-! ## Line feeds -/

theorem head?_append_newline (text more : Bytes) :
    ((text ++ 10 :: more).head? == some 47) = (text.head? == some 47) := by
  cases text with
  | nil => rfl
  | cons byte text => rfl

theorem Scanner.skipFrom_append_of_eq_nil {inComment : Bool} {position : Position} {text : Bytes}
    (nothing : (skipFrom inComment position text).rest = []) (more : Bytes) :
    ∃ later, skipFrom inComment position (text ++ 10 :: more) = skipFrom false later more := by
  induction text generalizing inComment position with
  | nil =>
      refine ⟨position.after 10, ?_⟩
      cases inComment <;> rfl
  | cons byte text induction =>
      simp only [skipFrom, List.cons_append, head?_append_newline] at nothing ⊢
      split_ifs at nothing ⊢
      · exact induction nothing
      · exact induction nothing
      · exact induction nothing

theorem Scanner.skipFrom_append {inComment : Bool} {position : Position} {text : Bytes}
    (some : (skipFrom inComment position text).rest ≠ []) (more : Bytes) :
    skipFrom inComment position (text ++ 10 :: more) =
      ⟨(skipFrom inComment position text).position,
        (skipFrom inComment position text).rest ++ 10 :: more⟩ := by
  induction text generalizing inComment position with
  | nil => exact absurd rfl some
  | cons byte text induction =>
      simp only [skipFrom, List.cons_append, head?_append_newline] at some ⊢
      split_ifs at some ⊢
      · exact induction some
      · exact induction some
      · exact induction some
      · rfl

theorem takeWhile_append_newline {part : UInt8 → Bool} (other : part 10 = false)
    (text more : Bytes) : (text ++ 10 :: more).takeWhile part = text.takeWhile part := by
  induction text with
  | nil => simp [other]
  | cons byte text induction =>
      rw [List.cons_append, List.takeWhile_cons, List.takeWhile_cons, induction]

theorem Lexeme.first_append {text : Bytes} (some : text ≠ []) (more : Bytes) :
    first (text ++ 10 :: more) = first text := by
  cases text with
  | nil => exact absurd rfl some
  | cons byte text =>
      have pair : (text ++ 10 :: more).head?.bind (Mark.ofPair? byte) =
          text.head?.bind (Mark.ofPair? byte) := by
        cases text <;> rfl
      have name := takeWhile_append_newline (show isNamePart 10 = false by decide) text more
      have numeral := takeWhile_append_newline (show isDigit 10 = false by decide) text more
      simp only [List.cons_append, first, name, numeral, pair]

theorem Lexeme.first_length_le (text : Bytes) : (first text).2 ≤ text.length := by
  cases text with
  | nil => exact Nat.le_refl 0
  | cons byte text =>
      rw [first]
      split
      · simpa using (List.takeWhile_prefix isNamePart).length_le
      · split
        · simpa using (List.takeWhile_prefix isDigit).length_le
        · split
          · rename_i pair
            cases text with
            | nil => cases pair
            | cons => simp
          · split <;> simp

theorem Scanner.tokens_ne_nil (scanner : Scanner) : scanner.tokens ≠ [] := by
  obtain ⟨front, last, split, _⟩ := scanner.ended_tokens
  simp [split]

theorem Scanner.tokens_append (text more : Bytes) (position : Position) :
    ∃ later, tokens ⟨position, text ++ 10 :: more⟩ =
      (tokens ⟨position, text⟩).dropLast ++ tokens ⟨later, more⟩ := by
  induction length : text.length using Nat.strong_induction_on generalizing text position with
  | _ count induction =>
  by_cases nothing : (skipFrom false position text).rest = []
  · obtain ⟨later, skipped⟩ := skipFrom_append_of_eq_nil nothing more
    have finished : (next ⟨position, text⟩).1.lexeme = .endOfInput := by
      simp [next, skip, nothing, Lexeme.first]
    have same : next ⟨position, text ++ 10 :: more⟩ = next ⟨later, more⟩ := by
      simp [next, skip, skipped]
    refine ⟨later, ?_⟩
    rw [tokens_eq ⟨position, text⟩, if_pos finished, tokens_eq ⟨position, _⟩, same, ← tokens_eq]
    rfl
  · have skipped := skipFrom_append nothing more
    have length := Lexeme.first_length_le (skipFrom false position text).rest
    have notLast : (next ⟨position, text⟩).1.lexeme ≠ .endOfInput :=
      fun finished => nothing (Lexeme.eq_nil_of_first_eq_endOfInput finished)
    have shorter := next_rest_length_lt notLast
    have token : (next ⟨position, text ++ 10 :: more⟩).1 = (next ⟨position, text⟩).1 := by
      simp [next, skip, skipped, Lexeme.first_append nothing]
    have behind : (next ⟨position, text ++ 10 :: more⟩).2 =
        ⟨(next ⟨position, text⟩).2.position, (next ⟨position, text⟩).2.rest ++ 10 :: more⟩ := by
      simp [next, skip, skipped, Lexeme.first_append nothing, advance,
        List.take_append_of_le_length, List.drop_append_of_le_length, length]
    obtain ⟨later, split⟩ := induction _ (by simpa [← ‹text.length = count›] using shorter)
      (next ⟨position, text⟩).2.rest (next ⟨position, text⟩).2.position rfl
    refine ⟨later, ?_⟩
    rw [tokens_eq ⟨position, text⟩, if_neg notLast, List.dropLast_cons_of_ne_nil (tokens_ne_nil _),
      tokens_eq ⟨position, _⟩, token, if_neg notLast, behind, split]
    rfl

/-! ## Source texts -/

theorem Token.ended_ofSource (source : Bytes) : Ended (ofSource source) :=
  Scanner.ended_tokens _

def Token.words (source : Bytes) : List Token :=
  (ofSource source).dropLast

theorem Token.ofSource_eq (source : Bytes) :
    ∃ last, ofSource source = words source ++ [last] ∧ last.lexeme = .endOfInput := by
  obtain ⟨front, last, split, isLast, _⟩ := ended_ofSource source
  exact ⟨last, by rw [words, split, List.dropLast_concat], isLast⟩

theorem Token.ofSource_append {source : Bytes} (all : (0 : UInt8) ∉ source) (more : Bytes) :
    ∃ later, ofSource (source ++ 10 :: more) =
      words source ++ (Scanner.mk later (more.takeWhile (· != 0))).tokens := by
  have kept : ∀ text : Bytes, (source ++ text).takeWhile (· != 0) =
      source ++ text.takeWhile (· != 0) := by
    intro text
    rw [List.takeWhile_append_of_pos]
    intro byte member
    rw [bne_iff_ne]
    rintro rfl
    exact all member
  have whole : source.takeWhile (· != 0) = source := by simpa using kept []
  obtain ⟨later, split⟩ := Scanner.tokens_append source (more.takeWhile (· != 0)) Position.start
  refine ⟨later, ?_⟩
  rw [words, ofSource, ofSource, Scanner.ofSource, Scanner.ofSource, kept, whole]
  exact split

/-! ## Spelling -/

def spelling (words : List Lexeme) : Bytes :=
  words.flatMap fun word => Bytes.ofString word.text ++ [10]

theorem Scanner.skip_eq {position : Position} {byte : UInt8} {rest : Bytes}
    (plain : isSeparator byte = false) (other : byte ≠ 47) :
    skip ⟨position, byte :: rest⟩ = ⟨position, byte :: rest⟩ := by
  simp [skip, skipFrom, plain, other]

theorem Scanner.tokens_nil (position : Position) :
    tokens ⟨position, []⟩ = [⟨position, .endOfInput⟩] := by
  rw [tokens_eq]
  rfl

def spells (word : Lexeme) (text : Bytes) : Bool :=
  Lexeme.first text == (word, text.length) && !text.contains 0 &&
    text.head?.any fun byte => !isSeparator byte && byte != 47

theorem spells_text {word : Lexeme} (known : word ∈ Grammar.vocabulary) :
    spells word (Bytes.ofString word.text) = true ∧ word ≠ .endOfInput := by
  have all : ∀ word ∈ Grammar.vocabulary,
      spells word (Bytes.ofString word.text) = true ∧ word ≠ .endOfInput := by
    decide +kernel
  exact all word known

theorem Scanner.tokens_word_alone {word : Lexeme} {text : Bytes} (spelled : spells word text = true)
    (some : word ≠ .endOfInput) (position : Position) :
    tokens ⟨position, text⟩ =
      [⟨position, word⟩, ⟨position.afterAll text, .endOfInput⟩] := by
  simp only [spells, Bool.and_eq_true, beq_iff_eq] at spelled
  obtain ⟨⟨first, _⟩, head⟩ := spelled
  cases text with
  | nil => cases head
  | cons byte rest =>
      simp only [List.head?_cons, Option.any_some, Bool.and_eq_true, Bool.not_eq_true',
        bne_iff_ne] at head
      have start := @skip_eq position byte rest head.1 head.2
      have read : next ⟨position, byte :: rest⟩ =
          (⟨position, word⟩, ⟨position.afterAll (byte :: rest), []⟩) := by
        simp [next, start, first, advance]
      rw [tokens_eq, read, if_neg some, tokens_nil]

theorem Token.ofSource_word_alone {word : Lexeme} {text : Bytes} (spelled : spells word text = true)
    (some : word ≠ .endOfInput) :
    ofSource text =
      [⟨Position.start, word⟩, ⟨Position.start.afterAll text, .endOfInput⟩] := by
  have zeroFree : (0 : UInt8) ∉ text := by
    simp only [spells, Bool.and_eq_true, Bool.not_eq_true', List.contains_eq_mem,
      decide_eq_false_iff_not] at spelled
    exact spelled.1.2
  have whole : text.takeWhile (· != 0) = text := by
    rw [List.takeWhile_eq_self_iff]
    intro byte member
    rw [bne_iff_ne]
    rintro rfl
    exact zeroFree member
  rw [ofSource, Scanner.ofSource, whole, Scanner.tokens_word_alone spelled some]

theorem Scanner.tokens_of_spells {word : Lexeme} {text : Bytes} (spelled : spells word text = true)
    (some : word ≠ .endOfInput) (position : Position) :
    (tokens ⟨position, text⟩).dropLast = [⟨position, word⟩] := by
  rw [tokens_word_alone spelled some position]
  rfl

theorem tokens_spelling {words : List Lexeme}
    (known : ∀ word ∈ words, word ∈ Grammar.vocabulary) (position : Position) :
    ∃ tokens last, (Scanner.mk position (spelling words)).tokens = tokens ++ [last] ∧
      tokens.map Token.lexeme = words ∧ last.lexeme = .endOfInput := by
  induction words generalizing position with
  | nil => exact ⟨[], _, Scanner.tokens_nil position, rfl, rfl⟩
  | cons word words induction =>
      obtain ⟨spelled, some⟩ := spells_text (known word (by simp))
      obtain ⟨later, split⟩ := Scanner.tokens_append (Bytes.ofString word.text) (spelling words)
        position
      obtain ⟨tokens, last, others, same, isLast⟩ :=
        induction (fun other member => known other (List.mem_cons_of_mem _ member)) later
      refine ⟨⟨position, word⟩ :: tokens, last, ?_, by rw [List.map_cons, same], isLast⟩
      rw [spelling, List.flatMap_cons, List.append_assoc]
      rw [Scanner.tokens_of_spells spelled some, others] at split
      exact split

theorem zero_not_mem_spelling {words : List Lexeme}
    (known : ∀ word ∈ words, word ∈ Grammar.vocabulary) : (0 : UInt8) ∉ spelling words := by
  rw [spelling, List.mem_flatMap]
  rintro ⟨word, member, inside⟩
  have spelled := (spells_text (known word member)).1
  simp only [spells, Bool.and_eq_true, Bool.not_eq_true', List.contains_eq_mem,
    decide_eq_false_iff_not] at spelled
  simp_all

end ExprLang
