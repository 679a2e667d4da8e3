import ExprLang.Proofs.Syntax.Locality
import ExprLang.Session.Dialogue

/-!
# Incomplete texts

A text that the parser does not accept can be completed by more lines if and only if the parser
says that the text stops too early.
-/

namespace ExprLang

open Grammar

theorem Token.error?_of_vocabulary {token : Token} (known : token.lexeme ∈ vocabulary) :
    token.error? = none := by
  rw [error?]
  generalize token.lexeme = found at known ⊢
  revert found
  simp [vocabulary, zero]

theorem Cursor.eq_error_of_atEnd {all before : List Token} {cursor : Cursor} {parser : Parser α}
    {goal : List Token → α → Prop} (outcome : Outcome all before goal (parser cursor))
    {errors : SyntaxErrors} (failed : cursor.parse parser = .error errors)
    (atEnd : errors.first.isAtEnd = true) : parser cursor = .error errors := by
  rw [parse] at failed
  cases parsed : parser cursor with
  | error found =>
      rw [parsed] at failed
      cases failed
      rfl
  | ok answer =>
      obtain ⟨result, final⟩ := answer
      rw [parsed] at failed outcome
      obtain ⟨tokens, stands, _⟩ := outcome
      cases wrong : final.errors with
      | nil => simp [wrong] at failed
      | cons first later =>
          simp only [wrong, Except.error.injEq] at failed
          rw [← failed, stands.not_atEnd_of_errors (by simp [wrong])] at atEnd
          cases atEnd

namespace Grammar

variable {parser : Nat → Parser α} {goal : List Token → α → Prop}

def Looks (parser : Nat → Parser α) : Prop :=
  ∀ {last : Token} {more tokens : List Token} {long : Nat}, last.lexeme = .endOfInput →
    more ≠ [] → Clean (tokens ++ more) →
      Agrees last more tokens (parser long (.ofTokens (tokens ++ more)))
        (parser (8 * (tokens.length + 1)) (.ofTokens (tokens ++ [last])))

theorem looks_programs : Looks Parser.definitions :=
  fun ends some clean => definitions_agrees ends some clean (by omega)

theorem looks_sequences : Looks (Parser.sequence · .endOfInput) :=
  fun ends some clean => ((parallels ends some _).sequence clean (by omega)).mono
    (List.tail_suffix _)

/-- What the parser misses at the end can be added. -/
theorem Recognizes.completable (recognizes : Recognizes parser goal) {source : Bytes}
    (text : (0 : UInt8) ∉ source) {errors : SyntaxErrors}
    (failed : (Cursor.ofSource source).parse (parser (Cursor.ofSource source).fuel) =
      .error errors) (atEnd : errors.first.isAtEnd = true) :
    ∃ more result, (Cursor.ofSource (source ++ 10 :: more)).parse
      (parser (Cursor.ofSource (source ++ 10 :: more)).fuel) = .ok result := by
  obtain ⟨stands, fuel⟩ := Cursor.stands_ofSource source
  have outcome := recognizes.outcome (Token.ended_ofSource source) Token.plain_ofSource stands
  rw [← fuel] at outcome
  have found := Cursor.eq_error_of_atEnd outcome failed atEnd
  rw [found] at outcome
  obtain ⟨tokens, last, all, clean, words, known, completes⟩ := outcome atEnd
  rw [List.nil_append] at all
  have front : Token.words source = tokens := by rw [Token.words, all, List.dropLast_concat]
  obtain ⟨later, split⟩ := Token.ofSource_append text (spelling words)
  have whole : (spelling words).takeWhile (· != 0) = spelling words := by
    refine List.takeWhile_eq_self_iff.mpr fun byte member => ?_
    rw [bne_iff_ne]
    rintro rfl
    exact zero_not_mem_spelling known member
  obtain ⟨added, final, spelled, same, ends⟩ := tokens_spelling known later
  rw [whole, spelled, front, ← List.append_assoc] at split
  obtain ⟨result, reached⟩ := completes added same
  refine ⟨spelling words, result, (recognizes.parse_eq_ok _ _).mpr ⟨?_, ?_⟩⟩
  · rw [split]
    intro token member
    simp only [List.mem_append, List.mem_singleton] at member
    rcases member with (old | new) | rfl
    · exact clean token (by rw [all]; simp [old])
    · refine Token.error?_of_vocabulary (known _ ?_)
      rw [← same]
      exact List.mem_map_of_mem new
    · rw [Token.error?, ends]
  · rw [Token.words, split, List.dropLast_concat]
    exact reached

/-- If more text completes a text that is not accepted, the parser fails at its end. -/
theorem Recognizes.atEnd (recognizes : Recognizes parser goal) (looks : Looks parser)
    {source more : Bytes} (text : (0 : UInt8) ∉ source) {errors : SyntaxErrors}
    (failed : (Cursor.ofSource source).parse (parser (Cursor.ofSource source).fuel) =
      .error errors) {result : α}
    (parsed : (Cursor.ofSource (source ++ 10 :: more)).parse
      (parser (Cursor.ofSource (source ++ 10 :: more)).fuel) = .ok result) :
    errors.first.isAtEnd = true := by
  obtain ⟨clean, _⟩ := (recognizes.parse_eq_ok _ _).mp parsed
  obtain ⟨final, passed, _⟩ := Cursor.parse_eq_ok.mp parsed
  rw [Cursor.ofSource_of_clean clean] at passed
  obtain ⟨later, split⟩ := Token.ofSource_append text more
  rw [split] at passed clean
  obtain ⟨last, all, ends⟩ := Token.ofSource_eq source
  have shortClean := clean_last ends clean
  rw [← all] at shortClean
  have start := Cursor.ofSource_of_clean shortClean
  have fuel := (Cursor.stands_ofSource source).2
  have agrees := looks ends (Scanner.tokens_ne_nil _) clean _ _ passed
  rw [fuel, start, all, List.length_append, List.length_singleton, Cursor.parse] at failed
  rcases agrees with (⟨found, error, atEnd⟩ | ⟨result, same⟩) | ⟨rest, _, _, same⟩
  · rw [error] at failed
    cases failed
    exact atEnd
  · simp [same] at failed
  · simp [same] at failed

theorem Recognizes.atEnd_iff (recognizes : Recognizes parser goal) (looks : Looks parser)
    {source : Bytes} (text : (0 : UInt8) ∉ source) {errors : SyntaxErrors}
    (failed : (Cursor.ofSource source).parse (parser (Cursor.ofSource source).fuel) =
      .error errors) :
    errors.first.isAtEnd = true ↔
      ∃ more result, (Cursor.ofSource (source ++ 10 :: more)).parse
        (parser (Cursor.ofSource (source ++ 10 :: more)).fuel) = .ok result :=
  ⟨recognizes.completable text failed,
    fun ⟨_, _, parsed⟩ => recognizes.atEnd looks text failed parsed⟩

end Grammar

/-- A text that is not accepted can be completed by more lines if and only if its first error is
that it stops too early. So a dialogue waits for more lines exactly while more lines can complete
the input. -/
theorem isAtEnd_iff_completable {source : Bytes} (text : (0 : UInt8) ∉ source) :
    (∀ errors, parseProgram source = .error errors →
      (errors.first.isAtEnd = true ↔
        ∃ more definitions, parseProgram (source ++ 10 :: more) = .ok definitions)) ∧
    (∀ errors, parseExpression source = .error errors →
      (errors.first.isAtEnd = true ↔
        ∃ more tree, parseExpression (source ++ 10 :: more) = .ok tree)) ∧
    (Dialogue.isIncomplete source = true ↔
      if Session.isDefinition source then
        (∃ errors, parseProgram source = .error errors) ∧
          ∃ more definitions, parseProgram (source ++ 10 :: more) = .ok definitions
      else
        (∃ errors, parseExpression source = .error errors) ∧
          ∃ more tree, parseExpression (source ++ 10 :: more) = .ok tree) := by
  have programs : ∀ errors, parseProgram source = .error errors →
      (errors.first.isAtEnd = true ↔
        ∃ more definitions, parseProgram (source ++ 10 :: more) = .ok definitions) :=
    fun errors failed => recognizes_programs.atEnd_iff looks_programs text failed
  have sequences : ∀ errors, parseExpression source = .error errors →
      (errors.first.isAtEnd = true ↔
        ∃ more tree, parseExpression (source ++ 10 :: more) = .ok tree) :=
    fun errors failed => recognizes_sequences.atEnd_iff looks_sequences text failed
  refine ⟨programs, sequences, ?_⟩
  rw [Dialogue.isIncomplete]
  split
  · cases parsed : parseProgram source with
    | ok definitions => simp
    | error errors => simpa using programs errors parsed
  · cases parsed : parseExpression source with
    | ok tree => simp
    | error errors => simpa using sequences errors parsed

/-- A sum without its second operand can be completed, and a parenthesis too many cannot be
mended. -/
theorem isAtEnd_iff_completable_sum :
    ((0 : UInt8) ∉ Bytes.ofString "1 +" ∧
      ∃ more tree, parseExpression (Bytes.ofString "1 +" ++ 10 :: more) = .ok tree) ∧
    ((0 : UInt8) ∉ Bytes.ofString "1 )" ∧
      ¬∃ more tree, parseExpression (Bytes.ofString "1 )" ++ 10 :: more) = .ok tree) := by
  have unfinished : (0 : UInt8) ∉ Bytes.ofString "1 +" := by decide
  have wrong : (0 : UInt8) ∉ Bytes.ofString "1 )" := by decide
  refine ⟨⟨unfinished, ?_⟩, wrong, ?_⟩
  · exact ((isAtEnd_iff_completable unfinished).2.2.mp (by decide +kernel)).2
  · intro mended
    have failed : ∃ errors, parseExpression (Bytes.ofString "1 )") = .error errors ∧
        errors.first.isAtEnd = false := by
      refine ⟨_, by cbv, rfl⟩
    obtain ⟨errors, failed, other⟩ := failed
    rw [((isAtEnd_iff_completable wrong).2.1 errors failed).mpr mended] at other
    cases other

end ExprLang
