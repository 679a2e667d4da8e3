import ExprLang.Proofs.Syntax.Acceptance

/-!
# What the parser does on the beginning of a text

The parser looks no further than the token under the cursor. So on the beginning of a text that
it accepts it does the same as on the whole text until it comes to the end, and there it stays or
fails because the text stops.
-/

namespace ExprLang.Grammar

open ExprLang.Parser

/-! ## At the end of input -/

def Starves (answer : Except SyntaxErrors (α × Cursor)) : Prop :=
  ∃ errors, answer = .error errors ∧ errors.first.isAtEnd = true

/-- The parser stays at the end of input, or fails because the text stops. -/
def Idles (last : Token) (answer : Except SyntaxErrors (α × Cursor)) : Prop :=
  Starves answer ∨ ∃ result, answer = .ok (result, .ofTokens [last])

section Starving

variable {last : Token} (ends : last.lexeme = .endOfInput)

theorem Starves.bind {cursor : Cursor} {first : Parser α} (starves : Starves (first cursor))
    (second : α → Parser β) : Starves ((first >>= second) cursor) := by
  obtain ⟨errors, failed, atEnd⟩ := starves
  exact ⟨errors, bind_error failed second, atEnd⟩

theorem idles_pure {last : Token} (result : α) :
    Idles last ((pure result : Parser α) (.ofTokens [last])) :=
  .inr ⟨result, rfl⟩

theorem Idles.bind {cursor : Cursor} {first : Parser α} {second : α → Parser β}
    (idles : Idles last (first cursor))
    (behind : ∀ result, Idles last (second result (.ofTokens [last]))) :
    Idles last ((first >>= second) cursor) := by
  rcases idles with starves | ⟨result, passed⟩
  · exact .inl (starves.bind second)
  · rw [bind_ok passed]
    exact behind result

include ends

theorem starves_failUnexpected :
    Starves ((failUnexpected : Parser α) (.ofTokens [last])) :=
  ⟨_, rfl, by simp [Cursor.blame, SyntaxError.isAtEnd, ends]⟩

theorem starves_failExpecting (what : String) :
    Starves ((failExpecting what : Parser α) (.ofTokens [last])) :=
  ⟨_, rfl, by simp [Cursor.blame, SyntaxError.isAtEnd, ends]⟩

theorem starves_expect {wanted : Lexeme} (what : String) (some : wanted ≠ .endOfInput) :
    Starves (expect wanted what (.ofTokens [last])) := by
  rw [expect_error what (.inr (by simpa [ends] using some.symm))]
  exact starves_failExpecting ends what

theorem starves_identifier (what : String) : Starves (identifier what (.ofTokens [last])) := by
  rw [identifier_error what (.inr (by simp [ends]))]
  exact starves_failExpecting ends what

theorem starves_primary (fuel : Nat) : Starves (primary fuel (.ofTokens [last])) := by
  cases fuel with
  | zero => exact starves_failUnexpected ends
  | succ fuel =>
      rw [primary, position_bind, lexeme_bind]
      simp only [Cursor.current_ofTokens, ends]
      exact starves_failUnexpected ends

theorem starves_operation (fuel floor : Nat) :
    Starves (operation fuel floor (.ofTokens [last])) := by
  cases fuel with
  | zero => exact starves_failUnexpected ends
  | succ fuel =>
      rw [operation]
      exact (starves_primary ends fuel).bind _

theorem starves_expression (fuel : Nat) : Starves (expression fuel (.ofTokens [last])) := by
  cases fuel with
  | zero => exact starves_failUnexpected ends
  | succ fuel =>
      rw [expression_other (by simp [ends])]
      exact starves_operation ends fuel 0

theorem starves_items (fuel : Nat) (closing : Mark) (what : String) (atFirst : Bool) :
    Starves (items fuel closing what atFirst (.ofTokens [last])) := by
  cases fuel with
  | zero => exact starves_failUnexpected ends
  | succ fuel =>
      rw [items, lexeme_bind, Cursor.current_ofTokens, ends, if_neg (by simp)]
      cases atFirst with
      | true => exact (starves_expression ends fuel).bind _
      | false => exact (starves_expect ends what (by simp)).bind _

theorem idles_closed (closing : Lexeme) (tree : Expr Position) :
    Idles last (closed closing tree (.ofTokens [last])) := by
  by_cases here : (Cursor.ofTokens [last]).current.lexeme = closing
  · have final : closing = .endOfInput := here.symm.trans ends
    rw [closed_ok here, if_pos final]
    exact .inr ⟨tree, rfl⟩
  · rw [closed_other here]
    exact .inl (starves_failExpecting ends _)

theorem starves_sequence (fuel : Nat) (closing : Lexeme) :
    Starves (Parser.sequence fuel closing (.ofTokens [last])) := by
  cases fuel with
  | zero => exact starves_failUnexpected ends
  | succ fuel =>
      rw [sequence_succ]
      exact (starves_expression ends fuel).bind _

theorem idles_following (fuel : Nat) (closing : Lexeme) (tree : Expr Position) :
    Idles last (following fuel closing tree (.ofTokens [last])) := by
  rw [following_other (by simp [ends])]
  exact idles_closed ends closing tree

theorem starves_block (fuel : Nat) : Starves (block fuel (.ofTokens [last])) := by
  cases fuel with
  | zero => exact starves_failUnexpected ends
  | succ fuel =>
      rw [block]
      exact (starves_expect ends _ (by simp)).bind _

theorem starves_conditional (fuel : Nat) : Starves (conditional fuel (.ofTokens [last])) := by
  cases fuel with
  | zero => exact starves_failUnexpected ends
  | succ fuel =>
      rw [conditional_succ, advance_bind]
      exact (starves_expression ends fuel).bind _

theorem starves_branch (fuel : Nat) : Starves (branch fuel (.ofTokens [last])) := by
  rw [branch_apply]
  split
  · exact starves_conditional ends fuel
  · exact starves_block ends fuel

theorem starves_otherwise (fuel : Nat) (build : Expr Position → Expr Position) :
    Starves (otherwise fuel build (.ofTokens [last])) := by
  rw [otherwise_other (by simp [ends])]
  exact starves_failExpecting ends _

theorem idles_operationFrom (fuel floor : Nat) (left : Expr Position) :
    Idles last (operationFrom fuel floor left (.ofTokens [last])) := by
  cases fuel with
  | zero => exact .inl (starves_failUnexpected ends)
  | succ fuel =>
      rw [operationFrom_ends (by simp [ends]) (by simp [ends, operator?])]
      exact .inr ⟨left, rfl⟩

theorem starves_parameters (fuel : Nat) (atFirst : Bool) :
    Starves (parameters fuel atFirst (.ofTokens [last])) := by
  cases fuel with
  | zero => exact starves_failUnexpected ends
  | succ fuel =>
      rw [parameters, lexeme_bind, Cursor.current_ofTokens, ends, if_neg (by simp)]
      cases atFirst with
      | true =>
          simp only [Bool.not_true, Bool.false_eq_true, if_false]
          rw [position_bind]
          exact (starves_identifier ends _).bind _
      | false => exact (starves_expect ends _ (by simp)).bind _

theorem idles_definitions (fuel : Nat) : Idles last (definitions fuel (.ofTokens [last])) := by
  cases fuel with
  | zero => exact .inl (starves_failUnexpected ends)
  | succ fuel =>
      rw [definitions, lexeme_bind, Cursor.current_ofTokens, ends]
      exact idles_pure []

end Starving

/-! ## Two texts with the same beginning -/

/-- What a parser does on a text that goes on and on one that stops: if it succeeds on the one,
it passes the same tokens on the other, with the same result, unless it comes to the end. What
is left of the tokens that both texts start with is behind the bound. -/
def Agrees (last : Token) (more bound : List Token)
    (long short : Except SyntaxErrors (α × Cursor)) : Prop :=
  ∀ result later, long = .ok (result, later) → Idles last short ∨
    ∃ rest, rest <:+ bound ∧ later = .ofTokens (rest ++ more) ∧
      short = .ok (result, .ofTokens (rest ++ [last]))

section Rules

variable {last : Token} {more bound final tokens : List Token}
  {longCursor shortCursor : Cursor}

theorem agrees_of_idles {long short : Except SyntaxErrors (α × Cursor)}
    (idles : Idles last short) : Agrees last more bound long short :=
  fun _ _ _ => .inl idles

theorem agrees_of_error {errors : SyntaxErrors} {short : Except SyntaxErrors (α × Cursor)} :
    Agrees last more bound (.error errors) short :=
  fun _ _ passed => by cases passed

theorem Agrees.mono {long short : Except SyntaxErrors (α × Cursor)}
    (agrees : Agrees last more bound long short) (weaker : bound <:+ final) :
    Agrees last more final long short := by
  intro result later passed
  refine (agrees result later passed).imp_right ?_
  rintro ⟨rest, suffix, standing, same⟩
  exact ⟨rest, suffix.trans weaker, standing, same⟩

theorem agrees_pure (result : α) (suffix : tokens <:+ bound) :
    Agrees last more bound ((pure result : Parser α) (.ofTokens (tokens ++ more)))
      ((pure result : Parser α) (.ofTokens (tokens ++ [last]))) := by
  rintro _ _ ⟨⟩
  exact .inr ⟨tokens, suffix, rfl, rfl⟩

theorem agrees_bind {longFirst shortFirst : Parser α} {longSecond shortSecond : α → Parser β}
    (agrees : Agrees last more bound (longFirst longCursor) (shortFirst shortCursor))
    (behind : ∀ rest result, rest <:+ bound →
      Agrees last more final (longSecond result (.ofTokens (rest ++ more)))
        (shortSecond result (.ofTokens (rest ++ [last]))))
    (idle : ∀ result, Idles last (shortSecond result (.ofTokens [last]))) :
    Agrees last more final ((longFirst >>= longSecond) longCursor)
      ((shortFirst >>= shortSecond) shortCursor) := by
  intro result later passed
  obtain ⟨middle, between, first, second⟩ := bind_eq_ok.mp passed
  rcases agrees middle between first with idles | ⟨rest, suffix, rfl, same⟩
  · exact .inl (idles.bind idle)
  · rw [bind_ok same]
    exact behind rest middle suffix result later second

theorem agrees_map {longFirst shortFirst : Parser α} {build : α → β}
    (agrees : Agrees last more bound (longFirst longCursor) (shortFirst shortCursor)) :
    Agrees last more bound ((longFirst >>= fun result => pure (build result)) longCursor)
      ((shortFirst >>= fun result => pure (build result)) shortCursor) :=
  agrees_bind agrees (fun _ _ suffix => agrees_pure _ suffix) fun _ => idles_pure _

variable (ends : last.lexeme = .endOfInput)

include ends

omit ends in
theorem clean_suffix {rest : List Token} (clean : Clean (tokens ++ more))
    (suffix : rest <:+ tokens) : Clean (rest ++ more) := by
  obtain ⟨front, rfl⟩ := suffix
  rw [List.append_assoc] at clean
  exact clean.right

theorem clean_last (clean : Clean (tokens ++ more)) : Clean (tokens ++ [last]) := by
  intro token member
  rcases List.mem_append.mp member with listed | final
  · exact clean token (List.mem_append_left more listed)
  · rw [List.mem_singleton.mp final, Token.error?, ends]

variable (some : more ≠ []) (clean : Clean (tokens ++ more))

include some clean

/-- A token that both texts have is passed. -/
theorem agrees_advance {token : Token} {rest : List Token}
    {longSecond shortSecond : Unit → Parser α} (split : tokens = token :: rest)
    (behind : Clean (rest ++ more) →
      Agrees last more bound (longSecond () (.ofTokens (rest ++ more)))
        (shortSecond () (.ofTokens (rest ++ [last])))) :
    Agrees last more bound ((advance >>= longSecond) (.ofTokens (tokens ++ more)))
      ((advance >>= shortSecond) (.ofTokens (tokens ++ [last]))) := by
  have shortClean := clean_last ends clean
  subst split
  rw [List.cons_append] at clean shortClean ⊢
  rw [List.cons_append, advance_bind, advance_bind,
    Cursor.advance_ofTokens clean (by simp [some]), Cursor.advance_ofTokens shortClean (by simp)]
  exact behind clean.tail

theorem agrees_expect {wanted : Lexeme} {what : String} {longSecond shortSecond : Unit → Parser α}
    (other : wanted ≠ .endOfInput)
    (behind : ∀ token rest, tokens = token :: rest → token.lexeme = wanted → Clean (rest ++ more) →
      Agrees last more bound (longSecond () (.ofTokens (rest ++ more)))
        (shortSecond () (.ofTokens (rest ++ [last])))) :
    Agrees last more bound ((expect wanted what >>= longSecond) (.ofTokens (tokens ++ more)))
      ((expect wanted what >>= shortSecond) (.ofTokens (tokens ++ [last]))) := by
  cases tokens with
  | nil => exact agrees_of_idles (.inl ((starves_expect ends what other).bind _))
  | cons token rest =>
      have shortClean := clean_last ends clean
      by_cases here : token.lexeme = wanted
      · rw [List.cons_append] at clean shortClean ⊢
        rw [List.cons_append, bind_ok (expect_token clean (by simp [some]) what here),
          bind_ok (expect_token shortClean (by simp) what here)]
        exact behind token rest rfl here clean.tail
      · rw [List.cons_append, bind_error (expect_error what (.inr here))]
        exact agrees_of_error

theorem agrees_identifier {what : String} {longSecond shortSecond : String → Parser α}
    (behind : ∀ token rest name, tokens = token :: rest → token.lexeme = .identifier name →
      Clean (rest ++ more) →
        Agrees last more bound (longSecond name (.ofTokens (rest ++ more)))
          (shortSecond name (.ofTokens (rest ++ [last])))) :
    Agrees last more bound ((identifier what >>= longSecond) (.ofTokens (tokens ++ more)))
      ((identifier what >>= shortSecond) (.ofTokens (tokens ++ [last]))) := by
  cases tokens with
  | nil => exact agrees_of_idles (.inl ((starves_identifier ends what).bind _))
  | cons token rest =>
      have shortClean := clean_last ends clean
      by_cases here : ∃ name, token.lexeme = .identifier name
      · obtain ⟨name, here⟩ := here
        rw [List.cons_append] at clean shortClean ⊢
        rw [List.cons_append, bind_ok (identifier_token clean (by simp [some]) what here),
          bind_ok (identifier_token shortClean (by simp) what here)]
        exact behind token rest name rfl here clean.tail
      · rw [List.cons_append, bind_error (identifier_error what (.inr (not_exists.mp here)))]
        exact agrees_of_error

end Rules

/-! ## Expressions -/

structure Parallel (last : Token) (more : List Token) (fuel : Nat) : Prop where
  expression : ∀ {long : Nat} {tokens : List Token}, Clean (tokens ++ more) →
    8 * tokens.length + 4 < fuel →
      Agrees last more tokens.tail (expression long (.ofTokens (tokens ++ more)))
        (expression fuel (.ofTokens (tokens ++ [last])))
  operation : ∀ {long : Nat} {tokens : List Token} {floor : Nat}, Clean (tokens ++ more) →
    8 * tokens.length + 3 < fuel →
      Agrees last more tokens.tail (operation long floor (.ofTokens (tokens ++ more)))
        (operation fuel floor (.ofTokens (tokens ++ [last])))
  operationFrom : ∀ {long : Nat} {tokens : List Token} {floor : Nat} {left : Expr Position},
    Clean (tokens ++ more) → 8 * tokens.length + 1 < fuel →
      Agrees last more tokens (operationFrom long floor left (.ofTokens (tokens ++ more)))
        (operationFrom fuel floor left (.ofTokens (tokens ++ [last])))
  primary : ∀ {long : Nat} {tokens : List Token}, Clean (tokens ++ more) →
    8 * tokens.length + 2 < fuel →
      Agrees last more tokens.tail (primary long (.ofTokens (tokens ++ more)))
        (primary fuel (.ofTokens (tokens ++ [last])))
  items : ∀ {long : Nat} {tokens : List Token} {closing : Mark} {what : String} {atFirst : Bool},
    Clean (tokens ++ more) → 8 * tokens.length + 5 < fuel →
      Agrees last more tokens.tail (items long closing what atFirst (.ofTokens (tokens ++ more)))
        (items fuel closing what atFirst (.ofTokens (tokens ++ [last])))
  sequence : ∀ {long : Nat} {tokens : List Token} {closing : Lexeme},
    Clean (tokens ++ more) → 8 * tokens.length + 5 < fuel →
      Agrees last more tokens.tail (Parser.sequence long closing (.ofTokens (tokens ++ more)))
        (Parser.sequence fuel closing (.ofTokens (tokens ++ [last])))
  block : ∀ {long : Nat} {tokens : List Token}, Clean (tokens ++ more) →
    8 * tokens.length + 1 < fuel →
      Agrees last more tokens.tail (block long (.ofTokens (tokens ++ more)))
        (block fuel (.ofTokens (tokens ++ [last])))
  conditional : ∀ {long : Nat} {tokens : List Token}, Clean (tokens ++ more) →
    8 * tokens.length + 1 < fuel →
      Agrees last more tokens.tail (conditional long (.ofTokens (tokens ++ more)))
        (conditional fuel (.ofTokens (tokens ++ [last])))

section Parallels

variable {last : Token} {more tokens : List Token} {fuel long : Nat}
  (ends : last.lexeme = .endOfInput) (some : more ≠ []) (parallel : Parallel last more fuel)
  (clean : Clean (tokens ++ more))

include ends some parallel clean

theorem expression_agrees (enough : 8 * tokens.length + 4 < fuel + 1) :
    Agrees last more tokens.tail (expression long (.ofTokens (tokens ++ more)))
      (expression (fuel + 1) (.ofTokens (tokens ++ [last]))) := by
  cases tokens with
  | nil => exact agrees_of_idles (.inl (starves_expression ends _))
  | cons token rest =>
  cases long with
  | zero => exact agrees_of_error
  | succ long =>
  rw [List.length_cons] at enough
  by_cases starts : token.lexeme = .keyword .letWord
  · rw [expression, expression, lexeme_bind, lexeme_bind]
    simp only [List.cons_append, Cursor.current_ofTokens, starts]
    rw [position_bind, position_bind]
    refine agrees_advance ends some clean rfl fun cleanRest => ?_
    refine agrees_identifier ends some cleanRest fun name second text shape named cleanSecond => ?_
    obtain rfl := shape
    refine agrees_expect ends some cleanSecond (by simp) fun assign third shape _ cleanThird => ?_
    obtain rfl := shape
    simp only [List.length_cons] at enough
    refine agrees_map ((parallel.expression cleanThird (by omega)).mono ?_)
    exact (List.tail_suffix third).trans (List.suffix_append [name, assign] third)
  · rw [expression_other (by simpa using starts), expression_other (by simpa using starts)]
    exact parallel.operation clean (by simp only [List.length_cons]; omega)

omit some in
theorem operation_agrees {floor : Nat} (enough : 8 * tokens.length + 3 < fuel + 1) :
    Agrees last more tokens.tail (operation long floor (.ofTokens (tokens ++ more)))
      (operation (fuel + 1) floor (.ofTokens (tokens ++ [last]))) := by
  cases long with
  | zero => exact agrees_of_error
  | succ long =>
  rw [operation, operation]
  refine agrees_bind (parallel.primary clean (by omega)) ?_ fun _ => idles_operationFrom ends _ _ _
  intro rest left suffix
  have inside := suffix.trans (List.tail_suffix tokens)
  have length := inside.length_le
  exact (parallel.operationFrom (clean_suffix clean inside) (by omega)).mono suffix

theorem operationFrom_agrees {floor : Nat} {left : Expr Position}
    (enough : 8 * tokens.length + 1 < fuel + 1) :
    Agrees last more tokens (operationFrom long floor left (.ofTokens (tokens ++ more)))
      (operationFrom (fuel + 1) floor left (.ofTokens (tokens ++ [last]))) := by
  cases tokens with
  | nil => exact agrees_of_idles (idles_operationFrom ends _ _ _)
  | cons token rest =>
  cases long with
  | zero => exact agrees_of_error
  | succ long =>
  rw [List.length_cons] at enough
  by_cases bracket : token.lexeme = .mark .leftBracket
  · rw [operationFrom, operationFrom, position_bind, position_bind, lexeme_bind, lexeme_bind]
    simp only [List.cons_append, Cursor.current_ofTokens, bracket]
    refine agrees_advance ends some clean rfl fun cleanRest => ?_
    refine agrees_bind (parallel.expression cleanRest (by omega)) ?_ fun _ =>
      .inl ((starves_expect ends _ (by simp)).bind _)
    intro second index suffix
    have inside := suffix.trans (List.tail_suffix rest)
    refine agrees_expect ends some (clean_suffix cleanRest inside) (by simp)
      fun closing third shape _ cleanThird => ?_
    obtain rfl := shape
    have length := inside.length_le
    rw [List.length_cons] at length
    refine (parallel.operationFrom cleanThird (by omega)).mono ?_
    exact (List.suffix_append [closing] third).trans (inside.trans (List.suffix_cons token rest))
  · by_cases loose : ∀ operator, operator? token.lexeme = Option.some operator →
      precedence operator < floor
    · rw [List.cons_append, List.cons_append, operationFrom_ends bracket loose,
        operationFrom_ends bracket loose]
      exact agrees_pure left (List.suffix_refl (token :: rest))
    · simp only [not_forall, not_lt] at loose
      obtain ⟨operator, here, tight⟩ := loose
      rw [List.cons_append, List.cons_append, operationFrom_operator here tight,
        operationFrom_operator here tight]
      refine agrees_advance ends some clean rfl fun cleanRest => ?_
      refine agrees_bind (parallel.operation cleanRest (by omega)) ?_ fun _ =>
        idles_operationFrom ends _ _ _
      intro second right suffix
      have inside := suffix.trans (List.tail_suffix rest)
      have length := inside.length_le
      refine (parallel.operationFrom (clean_suffix cleanRest inside) (by omega)).mono ?_
      exact inside.trans (List.suffix_cons token rest)

omit some in
theorem itemsFrom_agrees {closing : Mark} {what : String}
    (enough : 8 * tokens.length + 4 < fuel) :
    Agrees last more tokens.tail (itemsFrom long closing what (.ofTokens (tokens ++ more)))
      (itemsFrom fuel closing what (.ofTokens (tokens ++ [last]))) := by
  rw [itemsFrom, itemsFrom]
  cases tokens with
  | nil => exact agrees_of_idles (.inl ((starves_expression ends _).bind _))
  | cons first others =>
      refine agrees_bind (parallel.expression clean enough) ?_ fun _ =>
        .inl ((starves_items ends _ _ _ _).bind _)
      intro second item suffix
      have shorter := suffix.length_le
      simp only [List.length_cons, List.tail_cons] at enough shorter suffix
      have inside := suffix.trans (List.suffix_cons first others)
      refine agrees_map ((parallel.items (clean_suffix clean inside) (by omega)).mono ?_)
      exact (List.tail_suffix second).trans suffix

theorem items_agrees {closing : Mark} {what : String} {atFirst : Bool}
    (enough : 8 * tokens.length + 5 < fuel + 1) :
    Agrees last more tokens.tail (items long closing what atFirst (.ofTokens (tokens ++ more)))
      (items (fuel + 1) closing what atFirst (.ofTokens (tokens ++ [last]))) := by
  cases tokens with
  | nil => exact agrees_of_idles (.inl (starves_items ends _ _ _ _))
  | cons token rest =>
  cases long with
  | zero => exact agrees_of_error
  | succ long =>
  by_cases here : token.lexeme = .mark closing
  · rw [List.cons_append, List.cons_append, items_closing here, items_closing here]
    exact agrees_advance ends some clean rfl fun _ => agrees_pure [] (List.suffix_refl rest)
  · cases atFirst with
    | true =>
        rw [List.cons_append, List.cons_append, items_first here, items_first here]
        exact itemsFrom_agrees ends parallel clean (by omega)
    | false =>
        rw [List.cons_append, List.cons_append, items_next here, items_next here]
        refine agrees_expect ends some clean (by simp) fun comma second shape _ cleanSecond => ?_
        cases shape
        rw [List.length_cons] at enough
        exact (itemsFrom_agrees ends parallel cleanSecond (by omega)).mono
          (List.tail_suffix rest)

omit parallel in
theorem closed_agrees {closing : Lexeme} {tree : Expr Position} :
    Agrees last more tokens (closed closing tree (.ofTokens (tokens ++ more)))
      (closed closing tree (.ofTokens (tokens ++ [last]))) := by
  cases tokens with
  | nil => exact agrees_of_idles (idles_closed ends closing tree)
  | cons token rest =>
      have shortClean := clean_last ends clean
      rw [List.cons_append] at clean shortClean ⊢
      rw [List.cons_append]
      by_cases here : token.lexeme = closing
      · rw [closed_ok here, closed_ok here]
        split
        · exact agrees_pure tree (List.suffix_refl (token :: rest))
        · rw [Cursor.advance_ofTokens clean (by simp [some]),
            Cursor.advance_ofTokens shortClean (by simp)]
          exact agrees_pure tree (List.suffix_cons token rest)
      · rw [closed_other here]
        exact agrees_of_error

theorem following_agrees {closing : Lexeme} {tree : Expr Position}
    (enough : 8 * tokens.length < fuel + 3) :
    Agrees last more tokens (following long closing tree (.ofTokens (tokens ++ more)))
      (following fuel closing tree (.ofTokens (tokens ++ [last]))) := by
  cases tokens with
  | nil => exact agrees_of_idles (idles_following ends _ _ _)
  | cons token rest =>
  rw [List.length_cons] at enough
  by_cases semicolon : token.lexeme = .mark .semicolon
  · have passed := @Cursor.advance_ofTokens token (rest ++ more) clean (by simp [some])
    have shortPassed := @Cursor.advance_ofTokens token (rest ++ [last]) (clean_last ends clean)
      (by simp)
    cases rest with
    | nil =>
        refine agrees_of_idles ?_
        by_cases finished : last.lexeme = closing
        · rw [List.cons_append, following_ended semicolon (by rw [shortPassed]; exact finished),
            shortPassed]
          exact idles_closed ends closing tree
        · rw [List.cons_append, following_more semicolon (by rw [shortPassed]; exact finished),
            shortPassed]
          exact .inl ((starves_sequence ends _ _).bind _)
    | cons next rest =>
        have tail : Clean (next :: rest ++ more) := Clean.tail clean
        change Agrees last more _
          (following _ _ _ (.ofTokens (token :: (next :: rest ++ more))))
          (following _ _ _ (.ofTokens (token :: (next :: rest ++ [last]))))
        by_cases finished : next.lexeme = closing
        · rw [following_ended semicolon (by rw [passed]; exact finished),
            following_ended semicolon (by rw [shortPassed]; exact finished), passed, shortPassed]
          exact (closed_agrees ends some tail).mono (List.suffix_cons token _)
        · rw [following_more semicolon (by rw [passed]; exact finished),
            following_more semicolon (by rw [shortPassed]; exact finished), passed, shortPassed]
          refine agrees_map ((parallel.sequence tail (by omega)).mono ?_)
          exact (List.suffix_cons next rest).trans (List.suffix_cons token _)
  · rw [List.cons_append, List.cons_append, following_other semicolon, following_other semicolon]
    exact closed_agrees ends some clean

theorem sequence_agrees {closing : Lexeme} (enough : 8 * tokens.length + 5 < fuel + 1) :
    Agrees last more tokens.tail (Parser.sequence long closing (.ofTokens (tokens ++ more)))
      (Parser.sequence (fuel + 1) closing (.ofTokens (tokens ++ [last]))) := by
  cases long with
  | zero => exact agrees_of_error
  | succ long =>
  rw [sequence_succ, sequence_succ]
  refine agrees_bind (parallel.expression clean (by omega)) ?_ fun _ => idles_following ends _ _ _
  intro rest tree suffix
  have inside := suffix.trans (List.tail_suffix tokens)
  have length := inside.length_le
  exact (following_agrees ends some parallel (clean_suffix clean inside) (by omega)).mono suffix

theorem block_agrees (enough : 8 * tokens.length + 1 < fuel + 1) :
    Agrees last more tokens.tail (block long (.ofTokens (tokens ++ more)))
      (block (fuel + 1) (.ofTokens (tokens ++ [last]))) := by
  cases long with
  | zero => exact agrees_of_error
  | succ long =>
  rw [block, block]
  refine agrees_expect ends some clean (by simp) fun opening rest shape _ cleanRest => ?_
  subst shape
  rw [List.length_cons] at enough
  rw [lexeme_bind, lexeme_bind]
  cases rest with
  | nil =>
      refine agrees_of_idles ?_
      rw [List.nil_append, Cursor.current_ofTokens, ends]
      exact .inl (starves_sequence ends _ _)
  | cons token others =>
      rw [List.cons_append, List.cons_append]
      by_cases empty : token.lexeme = .mark .rightBrace
      · rw [if_pos (by simpa using empty)]
        exact agrees_of_error
      · rw [if_neg (by simpa using empty), if_neg (by simpa using empty)]
        exact (parallel.sequence cleanRest (by omega)).mono (List.tail_suffix _)

omit some in
theorem branch_agrees (enough : 8 * tokens.length + 1 < fuel) :
    Agrees last more tokens.tail (branch long (.ofTokens (tokens ++ more)))
      (branch fuel (.ofTokens (tokens ++ [last]))) := by
  cases tokens with
  | nil => exact agrees_of_idles (.inl (starves_branch ends fuel))
  | cons token rest =>
      rw [branch_apply, branch_apply]
      by_cases again : token.lexeme = .keyword .ifWord
      · rw [if_pos (by exact again), if_pos (by exact again)]
        exact parallel.conditional clean enough
      · rw [if_neg (by exact again), if_neg (by exact again)]
        exact parallel.block clean enough

theorem otherwise_agrees {build : Expr Position → Expr Position}
    (enough : 8 * tokens.length < fuel + 7) :
    Agrees last more tokens.tail (otherwise long build (.ofTokens (tokens ++ more)))
      (otherwise fuel build (.ofTokens (tokens ++ [last]))) := by
  cases tokens with
  | nil => exact agrees_of_idles (.inl (starves_otherwise ends fuel build))
  | cons token rest =>
      rw [List.length_cons] at enough
      have shortClean := clean_last ends clean
      rw [List.cons_append] at clean shortClean ⊢
      rw [List.cons_append]
      by_cases word : token.lexeme = .keyword .elseWord
      · rw [otherwise_else word, otherwise_else word,
          Cursor.advance_ofTokens clean (by simp [some]),
          Cursor.advance_ofTokens shortClean (by simp)]
        exact agrees_map ((branch_agrees ends parallel clean.tail (by omega)).mono
          (List.tail_suffix rest))
      · rw [otherwise_other word]
        exact agrees_of_error

theorem conditional_agrees (enough : 8 * tokens.length + 1 < fuel + 1) :
    Agrees last more tokens.tail (conditional long (.ofTokens (tokens ++ more)))
      (conditional (fuel + 1) (.ofTokens (tokens ++ [last]))) := by
  cases tokens with
  | nil => exact agrees_of_idles (.inl (starves_conditional ends _))
  | cons token rest =>
  cases long with
  | zero => exact agrees_of_error
  | succ long =>
  rw [List.length_cons] at enough
  rw [conditional_succ, conditional_succ]
  refine agrees_advance ends some clean rfl fun cleanRest => ?_
  refine agrees_bind (parallel.expression cleanRest (by omega)) ?_ fun _ =>
    .inl ((starves_block ends _).bind _)
  intro second condition suffix
  have inside := suffix.trans (List.tail_suffix rest)
  have length := inside.length_le
  have cleanSecond := clean_suffix cleanRest inside
  refine agrees_bind (parallel.block cleanSecond (by omega)) ?_ fun _ =>
    .inl (starves_otherwise ends _ _)
  intro third onTrue suffix
  have within := suffix.trans (List.tail_suffix second)
  have shorter := within.length_le
  refine (otherwise_agrees ends some parallel (clean_suffix cleanSecond within) (by omega)).mono ?_
  exact (List.tail_suffix third).trans (within.trans inside)

/-- An expression and the parenthesis behind it are passed. -/
theorem enclosed_agrees {build : Expr Position → Expr Position}
    (enough : 8 * tokens.length + 4 < fuel) :
    Agrees last more tokens
      ((do
        let inner ← expression long
        expect (.mark .rightParen) "')'"
        return build inner) (.ofTokens (tokens ++ more)))
      ((do
        let inner ← expression fuel
        expect (.mark .rightParen) "')'"
        return build inner) (.ofTokens (tokens ++ [last]))) := by
  refine agrees_bind (parallel.expression clean enough) ?_ fun _ =>
    .inl ((starves_expect ends _ (by simp)).bind _)
  intro rest inner suffix
  have inside := suffix.trans (List.tail_suffix tokens)
  refine agrees_expect ends some (clean_suffix clean inside) (by simp)
    fun closing others shape _ _ => ?_
  subst shape
  exact agrees_pure _ ((List.suffix_cons closing others).trans inside)

/-- The rest of a loop is passed. -/
theorem each_agrees {start : Position} (enough : 8 * tokens.length + 4 < fuel + 8) :
    Agrees last more tokens
      ((do
        let name ← identifier "loop variable"
        expect (.keyword .inWord) "'in'"
        let bound ← expression long
        let body ← block long
        return Expr.each start name bound body) (.ofTokens (tokens ++ more)))
      ((do
        let name ← identifier "loop variable"
        expect (.keyword .inWord) "'in'"
        let bound ← expression fuel
        let body ← block fuel
        return Expr.each start name bound body) (.ofTokens (tokens ++ [last]))) := by
  refine agrees_identifier ends some clean fun name first text shape _ cleanFirst => ?_
  subst shape
  refine agrees_expect ends some cleanFirst (by simp) fun word second shape _ cleanSecond => ?_
  subst shape
  simp only [List.length_cons] at enough
  refine agrees_bind (parallel.expression cleanSecond (by omega)) ?_ fun _ =>
    .inl ((starves_block ends _).bind _)
  intro third bound suffix
  have inside := suffix.trans (List.tail_suffix second)
  have length := inside.length_le
  refine agrees_map ((parallel.block (clean_suffix cleanSecond inside) (by omega)).mono ?_)
  exact (List.tail_suffix third).trans (inside.trans (List.suffix_append [name, word] second))

theorem name_agrees {token : Token} {rest : List Token} {name : String}
    (shape : tokens = token :: rest) (named : token.lexeme = .identifier name)
    (enough : 8 * rest.length < fuel + 3) :
    Agrees last more rest (primary (long + 1) (.ofTokens (tokens ++ more)))
      (primary (fuel + 1) (.ofTokens (tokens ++ [last]))) := by
  subst shape
  rw [primary, primary, position_bind, position_bind, lexeme_bind, lexeme_bind]
  simp only [List.cons_append, Cursor.current_ofTokens, named]
  refine agrees_advance ends some clean rfl fun cleanRest => ?_
  rw [lexeme_bind, lexeme_bind]
  cases rest with
  | nil =>
      refine agrees_of_idles ?_
      simp only [List.nil_append, Cursor.current_ofTokens, ends]
      exact idles_pure _
  | cons opening others =>
      simp only [List.cons_append, Cursor.current_ofTokens]
      rw [List.length_cons] at enough
      by_cases opens : opening.lexeme = .mark .leftParen
      · simp only [opens]
        refine agrees_advance ends some cleanRest rfl fun cleanOthers => ?_
        refine agrees_map ((parallel.items cleanOthers (by omega)).mono ?_)
        exact (List.tail_suffix others).trans (List.suffix_cons opening others)
      · generalize opening.lexeme = found at opens
        split
        · exact absurd rfl opens
        · exact agrees_pure _ (List.suffix_refl (opening :: others))

theorem primary_agrees (enough : 8 * tokens.length + 2 < fuel + 1) :
    Agrees last more tokens.tail (primary long (.ofTokens (tokens ++ more)))
      (primary (fuel + 1) (.ofTokens (tokens ++ [last]))) := by
  cases tokens with
  | nil => exact agrees_of_idles (.inl (starves_primary ends _))
  | cons token rest =>
  cases long with
  | zero => exact agrees_of_error
  | succ long =>
  rw [List.length_cons] at enough
  by_cases named : ∃ name, token.lexeme = .identifier name
  · obtain ⟨name, named⟩ := named
    exact name_agrees ends some parallel clean rfl named (show 8 * rest.length < _ by omega)
  rw [primary, primary, position_bind, position_bind, lexeme_bind, lexeme_bind]
  simp only [List.cons_append, Cursor.current_ofTokens]
  have one : ∀ tree : Expr Position,
      Agrees last more rest ((advance >>= fun _ => pure tree) (.ofTokens (token :: rest ++ more)))
        ((advance >>= fun _ => pure tree) (.ofTokens (token :: rest ++ [last]))) := fun tree =>
    agrees_advance ends some clean rfl fun _ => agrees_pure tree (List.suffix_refl rest)
  cases here : token.lexeme with
  | integer numeral value => exact one _
  | identifier name => exact absurd ⟨name, here⟩ named
  | keyword word =>
      cases word with
      | trueWord => exact one _
      | falseWord => exact one _
      | len =>
          refine agrees_advance ends some clean rfl fun cleanRest => ?_
          refine agrees_expect ends some cleanRest (by simp)
            fun opening others shape _ cleanOthers => ?_
          subst shape
          rw [List.length_cons] at enough
          exact (enclosed_agrees ends some parallel cleanOthers (by omega)).mono
            (List.suffix_cons opening others)
      | ifWord => exact parallel.conditional clean (by simp only [List.length_cons]; omega)
      | each =>
          exact agrees_advance ends some clean rfl fun cleanRest =>
            each_agrees ends some parallel cleanRest (by omega)
      | fn | letWord | elseWord | inWord => exact agrees_of_error
  | mark sign =>
      cases sign with
      | leftBracket =>
          refine agrees_advance ends some clean rfl fun cleanRest => ?_
          exact agrees_map ((parallel.items cleanRest (by omega)).mono (List.tail_suffix rest))
      | leftParen =>
          exact agrees_advance ends some clean rfl fun cleanRest =>
            enclosed_agrees ends some parallel cleanRest (by omega)
      | leftBrace => exact parallel.block clean (by simp only [List.length_cons]; omega)
      | _ => exact agrees_of_error
  | illegal byte => exact agrees_of_error
  | endOfInput => exact agrees_of_error

end Parallels

theorem parallels {last : Token} {more : List Token} (ends : last.lexeme = .endOfInput)
    (some : more ≠ []) (fuel : Nat) : Parallel last more fuel := by
  induction fuel with
  | zero =>
      refine ⟨?_, ?_, ?_, ?_, ?_, ?_, ?_, ?_⟩
      all_goals
        intros
        omega
  | succ fuel parallel =>
      exact ⟨expression_agrees ends some parallel,
        fun clean => operation_agrees ends parallel clean,
        fun clean => operationFrom_agrees ends some parallel clean,
        primary_agrees ends some parallel,
        fun clean => items_agrees ends some parallel clean,
        fun clean => sequence_agrees ends some parallel clean,
        block_agrees ends some parallel, conditional_agrees ends some parallel⟩

/-! ## Programs -/

section Programs

variable {last : Token} {more tokens : List Token} {fuel long : Nat}
  (ends : last.lexeme = .endOfInput) (some : more ≠ []) (clean : Clean (tokens ++ more))

include ends some clean

theorem type_agrees (enough : 8 * tokens.length + 1 < fuel) :
    Agrees last more tokens.tail (type long (.ofTokens (tokens ++ more)))
      (type fuel (.ofTokens (tokens ++ [last]))) := by
  induction fuel generalizing tokens long with
  | zero => omega
  | succ fuel induction =>
  cases long with
  | zero => exact agrees_of_error
  | succ long =>
  rw [type, type]
  refine agrees_identifier ends some clean fun token rest name shape _ cleanRest => ?_
  subst shape
  simp only [List.length_cons] at enough
  split
  · refine agrees_expect ends some cleanRest (by simp) fun opening second shape _ cleanSecond => ?_
    subst shape
    simp only [List.length_cons] at enough
    refine agrees_bind (induction cleanSecond (by omega)) ?_ fun _ =>
      .inl ((starves_expect ends _ (by simp)).bind _)
    intro third element suffix
    have inside := suffix.trans (List.tail_suffix second)
    refine agrees_expect ends some (clean_suffix cleanSecond inside) (by simp)
      fun closing fourth shape _ _ => ?_
    subst shape
    exact agrees_pure _ ((List.suffix_cons closing fourth).trans
      (inside.trans (List.suffix_cons opening second)))
  · cases Ty.parse name with
    | ok found => exact agrees_pure found (List.suffix_refl rest)
    | error failure => exact agrees_of_error

theorem parametersFrom_agrees (enough : 8 * tokens.length < fuel + 8)
    (others : ∀ {tokens : List Token}, Clean (tokens ++ more) → 8 * tokens.length + 1 < fuel →
      Agrees last more tokens.tail (parameters long false (.ofTokens (tokens ++ more)))
        (parameters fuel false (.ofTokens (tokens ++ [last])))) :
    Agrees last more tokens.tail (parametersFrom long (.ofTokens (tokens ++ more)))
      (parametersFrom fuel (.ofTokens (tokens ++ [last]))) := by
  cases tokens with
  | nil =>
      refine agrees_of_idles (.inl ?_)
      rw [parametersFrom, position_bind]
      exact (starves_identifier ends _).bind _
  | cons token rest =>
  rw [parametersFrom, parametersFrom, position_bind, position_bind]
  simp only [List.cons_append, Cursor.current_ofTokens]
  refine agrees_identifier ends some clean fun name first text shape _ cleanFirst => ?_
  cases shape
  refine agrees_expect ends some cleanFirst (by simp) fun colon second shape _ cleanSecond => ?_
  subst shape
  simp only [List.length_cons] at enough
  refine agrees_bind (type_agrees ends some cleanSecond (by omega)) ?_ fun _ =>
    .inl ((starves_parameters ends _ _).bind _)
  intro third found suffix
  have inside := suffix.trans (List.tail_suffix second)
  have length := inside.length_le
  refine agrees_map ((others (clean_suffix cleanSecond inside) (by omega)).mono ?_)
  exact (List.tail_suffix third).trans (inside.trans (List.suffix_cons colon second))

theorem parameters_agrees {atFirst : Bool} (enough : 8 * tokens.length + 1 < fuel) :
    Agrees last more tokens.tail (parameters long atFirst (.ofTokens (tokens ++ more)))
      (parameters fuel atFirst (.ofTokens (tokens ++ [last]))) := by
  induction fuel generalizing tokens long atFirst with
  | zero => omega
  | succ fuel induction =>
  cases tokens with
  | nil => exact agrees_of_idles (.inl (starves_parameters ends _ _))
  | cons token rest =>
  cases long with
  | zero => exact agrees_of_error
  | succ long =>
  by_cases here : token.lexeme = .mark .rightParen
  · rw [List.cons_append, List.cons_append, parameters_closing here, parameters_closing here]
    exact agrees_advance ends some clean rfl fun _ => agrees_pure [] (List.suffix_refl rest)
  · cases atFirst with
    | true =>
        rw [List.cons_append, List.cons_append, parameters_first here, parameters_first here]
        exact parametersFrom_agrees ends some clean (by omega) fun clean => induction clean
    | false =>
        rw [List.cons_append, List.cons_append, parameters_next here, parameters_next here]
        refine agrees_expect ends some clean (by simp) fun comma second shape _ cleanSecond => ?_
        cases shape
        rw [List.length_cons] at enough
        exact (parametersFrom_agrees ends some cleanSecond (by omega)
          fun clean => induction clean).mono
          (List.tail_suffix rest)

theorem definition_agrees (enough : 8 * tokens.length < fuel + 8) :
    Agrees last more tokens.tail (definition long (.ofTokens (tokens ++ more)))
      (definition fuel (.ofTokens (tokens ++ [last]))) := by
  cases tokens with
  | nil =>
      refine agrees_of_idles (.inl ?_)
      rw [definition, position_bind]
      exact (starves_expect ends _ (by simp)).bind _
  | cons token rest =>
  rw [definition, definition, position_bind, position_bind]
  simp only [List.cons_append, Cursor.current_ofTokens]
  refine agrees_expect ends some clean (by simp) fun start first shape _ cleanFirst => ?_
  cases shape
  refine agrees_identifier ends some cleanFirst fun name second text shape _ cleanSecond => ?_
  subst shape
  refine agrees_expect ends some cleanSecond (by simp) fun opening third shape _ cleanThird => ?_
  subst shape
  simp only [List.length_cons] at enough
  refine agrees_bind (parameters_agrees ends some cleanThird (by omega)) ?_ fun _ =>
    .inl ((starves_block ends _).bind _)
  intro fourth found suffix
  have inside := suffix.trans (List.tail_suffix third)
  have length := inside.length_le
  refine agrees_map (((parallels ends some fuel).block (clean_suffix cleanThird inside)
    (by omega)).mono ?_)
  exact (List.tail_suffix fourth).trans (inside.trans (List.suffix_append [name, opening] third))

theorem definitions_agrees (enough : 8 * tokens.length + 1 < fuel) :
    Agrees last more tokens (definitions long (.ofTokens (tokens ++ more)))
      (definitions fuel (.ofTokens (tokens ++ [last]))) := by
  induction fuel generalizing tokens long with
  | zero => omega
  | succ fuel induction =>
  cases tokens with
  | nil => exact agrees_of_idles (idles_definitions ends _)
  | cons token rest =>
  cases long with
  | zero => exact agrees_of_error
  | succ long =>
  rw [definitions, definitions, lexeme_bind, lexeme_bind]
  by_cases here : token.lexeme = .endOfInput
  · rw [if_pos (by simpa using here), if_pos (by simpa using here)]
    exact agrees_pure [] (List.suffix_refl _)
  · rw [if_neg (by simpa using here), if_neg (by simpa using here)]
    rw [List.length_cons] at enough
    refine agrees_bind (definition_agrees ends some clean ?_) ?_ fun _ =>
      (idles_definitions ends _).bind fun _ => idles_pure _
    · rw [List.length_cons]
      omega
    intro second found suffix
    have length := suffix.length_le
    rw [List.tail_cons] at suffix length
    have inside := suffix.trans (List.suffix_cons token rest)
    exact agrees_map ((induction (clean_suffix clean inside) (by omega)).mono inside)

end Programs

end ExprLang.Grammar
