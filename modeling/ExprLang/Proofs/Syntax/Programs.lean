import ExprLang.Proofs.Syntax.Scanning

/-!
# The parser accepts only programs

Types, parameters and definitions: what the parser has passed when it succeeds is one of them, and
when the text stops too early, it can be completed to one.
-/

namespace ExprLang.Grammar

open ExprLang.Parser

section Outcomes

variable {all before : List Token} {cursor : Cursor} (ended : Ended all)

include ended

/-! ## Types -/

omit ended in
theorem derivesType_int {token : Token} (named : token.lexeme = .identifier "Int") :
    DerivesType [token] .int :=
  .named named (by decide)

omit ended in
theorem blameType_not_atEnd (stands : Stands all before cursor) (failure : UnknownType) :
    (cursor.blameType failure).first.isAtEnd = false := by
  rw [Cursor.blameType]
  cases wrong : cursor.errors with
  | nil => rfl
  | cons first later => exact stands.not_atEnd_of_errors (by simp [wrong])

theorem type_outcome
    (plain : ∀ token ∈ all, ∀ name, token.lexeme = .identifier name → Plain name) {fuel : Nat}
    (stands : Stands all before cursor)
    (enough : 8 * all.length + 1 < fuel + 8 * (before.length + 1)) :
    Outcome all before DerivesType (type fuel cursor) := by
  induction fuel generalizing before cursor with
  | zero =>
      have length := stands.length
      omega
  | succ fuel induction =>
      rw [type]
      refine outcome_identifier stands ended ?_ fun name first named standsFirst => ?_
      · refine ⟨[.identifier "Int"], by decide, fun more same => ?_⟩
        simp only [List.map_eq_cons_iff, List.map_eq_nil_iff] at same
        obtain ⟨_, _, rfl, int, rfl⟩ := same
        exact ⟨_, derivesType_int int⟩
      by_cases array : name = "Array"
      · rw [if_pos (by simpa using array)]
        subst array
        have close : ∀ opening inner element, opening.lexeme = .mark .less →
            DerivesType inner element → ∀ more, more.map Token.lexeme = [.mark .greater] →
            DerivesType (cursor.current :: opening :: (inner ++ more)) (.array element) := by
          intro opening inner element opens inside more same
          simp only [List.map_eq_cons_iff, List.map_eq_nil_iff] at same
          obtain ⟨closing, _, rfl, closes, rfl⟩ := same
          exact .array named opens inside closes
        refine outcome_expect standsFirst ended ?_ (by simp) fun second opens standsSecond => ?_
        · refine ⟨[.mark .less, .identifier "Int", .mark .greater], by decide,
            fun more same => ?_⟩
          obtain ⟨opening, _, rfl, opens, same⟩ := List.map_eq_cons_iff.mp same
          obtain ⟨inner, _, rfl, int, same⟩ := List.map_eq_cons_iff.mp same
          exact ⟨_, close opening [inner] _ opens (derivesType_int int) _ same⟩
        refine outcome_bind (induction standsSecond ?_) [.mark .greater] (by decide) ?_ ?_
        · simp only [List.length_append, List.length_cons, List.length_nil]
          omega
        · exact fun inner element inside more same => ⟨_, close _ _ _ opens inside more same⟩
        intro inner element third _ standsThird inside
        refine outcome_expect standsThird ended ?_ (by simp) fun last closes standsLast => ?_
        · exact ⟨[.mark .greater], by decide,
            fun more same => ⟨_, close _ _ _ opens inside more same⟩⟩
        · exact outcome_pure standsLast (close _ _ _ opens inside [_] (by simp [closes]))
      · rw [if_neg (by simpa using array)]
        cases parsed : Ty.parse name with
        | ok found =>
            refine outcome_pure standsFirst (.named named (listed_of_parse ?_ parsed))
            exact plain _ (by rw [stands.tokens]; simp) _ named
        | error failure =>
            intro atEnd
            rw [show _ = false from blameType_not_atEnd standsFirst failure] at atEnd
            cases atEnd

/-! ## Parameters -/

def Listed (atFirst : Bool) (tokens : List Token) (found : List Parameter) : Prop :=
  ∃ inner close, tokens = inner ++ [close] ∧ close.lexeme = .mark .rightParen ∧
    if atFirst then DerivesParameters inner found else DerivesOthers inner found

omit ended in
theorem listed_empty {atFirst : Bool} {more : List Token}
    (same : more.map Token.lexeme = [.mark .rightParen]) : Listed atFirst more [] := by
  simp only [List.map_eq_cons_iff, List.map_eq_nil_iff] at same
  obtain ⟨close, _, rfl, closes, rfl⟩ := same
  refine ⟨[], close, rfl, closes, ?_⟩
  cases atFirst
  · exact .done
  · exact .empty

variable (plain : ∀ token ∈ all, ∀ name, token.lexeme = .identifier name → Plain name)

include plain

/-- One more parameter is passed, and then the others. -/
theorem parametersFrom_outcome {fuel : Nat} {atFirst : Bool} (front : List Token)
    (stands : Stands all before cursor)
    (enough : 8 * all.length < fuel + 8 * (before.length + 1))
    (others : ∀ {before : List Token} {cursor : Cursor}, Stands all before cursor →
      8 * all.length + 1 < fuel + 8 * (before.length + 1) →
      Outcome all before (Listed false) (parameters fuel false cursor))
    (put : ∀ tokens parameter rest found, DerivesParameter tokens parameter →
      Listed false rest found → Listed atFirst (front ++ (tokens ++ rest)) (parameter :: found)) :
    Outcome all before (fun tokens => Listed atFirst (front ++ tokens))
      (parametersFrom fuel cursor) := by
  have defaults : ∀ {name colon : Token} {text : String} {more : List Token},
      name.lexeme = .identifier text → colon.lexeme = .mark .colon →
      more.map Token.lexeme = [.identifier "Int", .mark .rightParen] →
      ∃ found, Listed atFirst (front ++ (name :: colon :: more)) found := by
    intro name colon text more named between same
    obtain ⟨token, rest, rfl, int, same⟩ := List.map_eq_cons_iff.mp same
    exact ⟨_, put _ _ _ _ (.typed named between (derivesType_int int)) (listed_empty same)⟩
  rw [parametersFrom, position_bind]
  refine outcome_identifier stands ended ?_ fun name first named standsFirst => ?_
  · refine ⟨[.identifier "x", .mark .colon, .identifier "Int", .mark .rightParen], by decide,
      fun more same => ?_⟩
    obtain ⟨name, rest, rfl, named, same⟩ := List.map_eq_cons_iff.mp same
    obtain ⟨colon, rest, rfl, between, same⟩ := List.map_eq_cons_iff.mp same
    exact defaults named between same
  refine outcome_expect standsFirst ended ?_ (by simp) fun second between standsSecond => ?_
  · refine ⟨[.mark .colon, .identifier "Int", .mark .rightParen], by decide, fun more same => ?_⟩
    obtain ⟨colon, rest, rfl, between, same⟩ := List.map_eq_cons_iff.mp same
    exact defaults named between same
  refine outcome_bind (type_outcome ended plain standsSecond ?_) [.mark .rightParen] (by decide)
    ?_ ?_
  · simp only [List.length_append, List.length_cons, List.length_nil]
    omega
  · intro tokens found typed more same
    exact ⟨_, put _ _ _ _ (.typed named between typed) (listed_empty same)⟩
  · intro tokens found third _ standsThird typed
    refine outcome_map (others standsThird ?_) fun rest found listed =>
      put _ _ _ _ (.typed named between typed) listed
    simp only [List.length_append, List.length_cons, List.length_nil]
    omega

theorem parameters_outcome {fuel : Nat} {atFirst : Bool} (stands : Stands all before cursor)
    (enough : 8 * all.length + 1 < fuel + 8 * (before.length + 1)) :
    Outcome all before (Listed atFirst) (parameters fuel atFirst cursor) := by
  induction fuel generalizing before cursor atFirst with
  | zero =>
      have length := stands.length
      omega
  | succ fuel induction =>
      by_cases here : cursor.current.lexeme = .mark .rightParen
      · rw [parameters_closing here]
        refine outcome_advance stands ended (by simp [here]) fun later standsLater => ?_
        exact outcome_pure standsLater (listed_empty (by simp [here]))
      · cases atFirst with
        | true =>
            rw [parameters_first here]
            refine parametersFrom_outcome ended plain [] stands (by omega) induction ?_
            rintro tokens parameter rest found one ⟨inner, close, rfl, closes, others⟩
            exact ⟨tokens ++ inner, close, by simp, closes, .first one others⟩
        | false =>
            rw [parameters_next here]
            refine outcome_expect stands ended ?_ (by simp) fun later comma standsLater => ?_
            · exact ⟨[.mark .rightParen], by decide, fun more same => ⟨_, listed_empty same⟩⟩
            · refine parametersFrom_outcome ended plain [cursor.current] standsLater ?_ induction ?_
              · simp only [List.length_append, List.length_cons, List.length_nil]
                omega
              · rintro tokens parameter rest found one ⟨inner, close, rfl, closes, others⟩
                exact ⟨cursor.current :: tokens ++ inner, close, by simp, closes,
                  .other comma one others⟩

/-! ## Definitions -/

theorem definition_outcome {fuel : Nat} (stands : Stands all before cursor)
    (enough : 8 * all.length + 1 < fuel + 8 * (before.length + 3)) :
    Outcome all before DerivesDefinition (definition fuel cursor) := by
  have finish : ∀ {start name opening : Token} {text : String} {rest : List Token}
      {found : List Parameter}, start.lexeme = .keyword .fn → name.lexeme = .identifier text →
      opening.lexeme = .mark .leftParen → Listed true rest found → ∀ {block body},
      Derives .block block [body] →
        DerivesDefinition (start :: name :: opening :: (rest ++ block))
          ⟨text, found, body, start.position⟩ := by
    rintro start name opening text _ found starts named opens ⟨inner, close, rfl, closes, inside⟩
      block body derives
    simpa using DerivesDefinition.function starts named opens inside closes derives
  have defaults : ∀ {start name opening : Token} {text : String} {more : List Token},
      start.lexeme = .keyword .fn → name.lexeme = .identifier text →
      opening.lexeme = .mark .leftParen →
      more.map Token.lexeme = .mark .rightParen :: defaultBlock →
        ∃ found, DerivesDefinition (start :: name :: opening :: more) found := by
    intro start name opening text more starts named opens same
    obtain ⟨close, block, rfl, closes, same⟩ := List.map_eq_cons_iff.mp same
    obtain ⟨body, derives⟩ := derives_defaultBlock same
    have none : Listed true [close] [] := listed_empty (by simp [closes])
    exact ⟨_, finish starts named opens none derives⟩
  rw [definition, position_bind]
  refine outcome_expect stands ended ?_ (by simp) fun first starts standsFirst => ?_
  · refine ⟨.keyword .fn :: .identifier "x" :: .mark .leftParen :: .mark .rightParen ::
      defaultBlock, by decide, fun more same => ?_⟩
    obtain ⟨start, rest, rfl, starts, same⟩ := List.map_eq_cons_iff.mp same
    obtain ⟨name, rest, rfl, named, same⟩ := List.map_eq_cons_iff.mp same
    obtain ⟨opening, rest, rfl, opens, same⟩ := List.map_eq_cons_iff.mp same
    exact defaults starts named opens same
  refine outcome_identifier standsFirst ended ?_ fun name second named standsSecond => ?_
  · refine ⟨.identifier "x" :: .mark .leftParen :: .mark .rightParen :: defaultBlock, by decide,
      fun more same => ?_⟩
    obtain ⟨name, rest, rfl, named, same⟩ := List.map_eq_cons_iff.mp same
    obtain ⟨opening, rest, rfl, opens, same⟩ := List.map_eq_cons_iff.mp same
    exact defaults starts named opens same
  refine outcome_expect standsSecond ended ?_ (by simp) fun third opens standsThird => ?_
  · refine ⟨.mark .leftParen :: .mark .rightParen :: defaultBlock, by decide,
      fun more same => ?_⟩
    obtain ⟨opening, rest, rfl, opens, same⟩ := List.map_eq_cons_iff.mp same
    exact defaults starts named opens same
  refine outcome_bind (parameters_outcome ended plain standsThird ?_) defaultBlock (by decide)
    ?_ ?_
  · simp only [List.length_append, List.length_cons, List.length_nil]
    omega
  · intro rest found listed more same
    obtain ⟨body, derives⟩ := derives_defaultBlock same
    exact ⟨_, finish starts named opens listed derives⟩
  · intro rest found fourth _ standsFourth listed
    refine outcome_map ((levels ended fuel).block standsFourth ?_) fun block body derives =>
      finish starts named opens listed derives
    simp only [List.length_append, List.length_cons, List.length_nil]
    omega

theorem definitions_outcome {fuel : Nat} (stands : Stands all before cursor)
    (enough : 8 * all.length + 1 < fuel + 8 * (before.length + 1)) :
    Outcome all before DerivesProgram (definitions fuel cursor) := by
  induction fuel generalizing before cursor with
  | zero =>
      have length := stands.length
      omega
  | succ fuel induction =>
      rw [definitions, lexeme_bind]
      by_cases here : cursor.current.lexeme = .endOfInput
      · simp only [here, beq_self_eq_true, if_true]
        exact outcome_pure stands .empty
      · rw [if_neg (by simpa using here)]
        refine outcome_bind (definition_outcome ended plain stands (by omega)) [] (by decide) ?_ ?_
        · intro tokens found derives more same
          rw [List.map_eq_nil_iff.mp same]
          exact ⟨_, .definition derives .empty⟩
        · intro tokens found later _ standsLater derives
          have some : 0 < tokens.length := by
            obtain ⟨_, _, _, _, _, _⟩ := derives
            simp
          refine outcome_map (induction standsLater ?_) fun rest others program =>
            .definition derives program
          simp only [List.length_append]
          omega

end Outcomes

end ExprLang.Grammar
